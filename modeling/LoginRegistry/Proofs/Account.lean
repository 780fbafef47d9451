import LoginRegistry.Account
import Mathlib.Data.List.Basic

/-! # Linking devices

    A device is linked under the id that the account has for the next one.  That is the id of
    its first disabled device, whose place the new device takes, and otherwise one past the
    highest id, which may be out of range.

    * `distinctIds_changeAll`: however devices are added and removed, ids occur once.  So the
      id of a disabled device is not that of an enabled one.
    * `linking_spares_enabled_iff`: when there is a next id, and that linking a device under it
      leaves the enabled ones as they are.
-/

namespace LoginRegistry

/-- A change to the devices of an account. -/
inductive DeviceChange where
  /-- Adds a device, in place of any device with its id. -/
  | add (device : Device)
  /-- Removes the devices with an id. -/
  | remove (id : UInt64)
  deriving DecidableEq

namespace Account

/-- The account after a change. -/
def change (a : Account) : DeviceChange → Account
  | .add device => a.addDevice device
  | .remove id => (a.removeDevice id).2

/-- The account after changes, one after the other. -/
def changeAll (a : Account) (changes : List DeviceChange) : Account := changes.foldl change a

/-- The largest device id. -/
def topDeviceId : UInt64 := .ofNat (UInt64.size - 1)

/-- The number of the next device: that of the first disabled device, otherwise one past the
    highest.  Unlike `nextDeviceId?` it has no end of the range. -/
def dueDeviceId (a : Account) : Nat :=
  match a.body.devices.find? (!·.enabled) with
  | some d => d.id.toNat
  | none => a.highestDeviceId.toNat + 1

/-- Some device is disabled, or none has the largest id. -/
def HasRoom (a : Account) : Prop :=
  (∃ d ∈ a.body.devices, d.enabled = false) ∨ ∀ d ∈ a.body.devices, d.id ≠ topDeviceId

/-- Linking a fresh device under an id leaves every enabled device as it is, and there is
    exactly one enabled device more. -/
structure LinksAt (a : Account) (id : UInt64) : Prop where
  kept : ∀ d ∈ a.body.devices, d.enabled = true →
    (a.addDevice (.new id)).device? d.id = some d
  count : (a.addDevice (.new id)).enabledDeviceCount = a.enabledDeviceCount + 1

/-! ### Ids occur once -/

/-- No two devices have the same id. -/
def DistinctIds (a : Account) : Prop := a.body.devices.Pairwise fun d e => d.id ≠ e.id

theorem DistinctIds.addDevice {a : Account} (h : a.DistinctIds) (device : Device) :
    (a.addDevice device).DistinctIds := by
  show (a.body.devices.filter (·.id != device.id) ++ [device]).Pairwise _
  refine List.pairwise_append.mpr ⟨h.filter _, List.pairwise_singleton _ _, ?_⟩
  intro d hd e he
  rw [List.mem_singleton.mp he]
  simpa using (List.mem_filter.mp hd).2

theorem DistinctIds.removeDevice {a : Account} (h : a.DistinctIds) (id : UInt64) :
    (a.removeDevice id).2.DistinctIds :=
  h.filter _

theorem DistinctIds.change {a : Account} (h : a.DistinctIds) (c : DeviceChange) :
    (a.change c).DistinctIds := by
  cases c with
  | add device => exact h.addDevice device
  | remove id => exact h.removeDevice id

theorem distinctIds_changeAll {a : Account} (h : a.DistinctIds) (changes : List DeviceChange) :
    (a.changeAll changes).DistinctIds := by
  unfold changeAll
  induction changes generalizing a with
  | nil => exact h
  | cons c changes ih => exact ih (h.change c)

/-- Where ids occur once, a device is found by its id. -/
theorem find?_id_of_mem {l : List Device} (h : l.Pairwise fun d e => d.id ≠ e.id) {d : Device}
    (hd : d ∈ l) : l.find? (·.id == d.id) = some d := by
  induction l with
  | nil => cases hd
  | cons e l ih =>
    obtain ⟨he, hl⟩ := List.pairwise_cons.mp h
    rcases List.mem_cons.mp hd with rfl | hd
    · simp
    · have hne : (e.id == d.id) = false := by simpa using he d hd
      rw [List.find?_cons, hne]
      exact ih hl hd

/-! ### The highest id -/

/-- The largest key so far only grows. -/
theorem le_foldl_max (key : Device → UInt64) (l : List Device) (start : UInt64) :
    start ≤ l.foldl (fun top d => max top (key d)) start ∧
      ∀ d ∈ l, key d ≤ l.foldl (fun top d => max top (key d)) start := by
  induction l generalizing start with
  | nil => simp
  | cons e l ih =>
    obtain ⟨hstart, hl⟩ := ih (max start (key e))
    have hmax : start ≤ max start (key e) ∧ key e ≤ max start (key e) := by
      simp only [UInt64.le_iff_toNat_le, UInt64.toNat_max]
      omega
    rw [List.foldl_cons]
    refine ⟨UInt64.le_trans hmax.1 hstart, List.forall_mem_cons.mpr ⟨?_, hl⟩⟩
    exact UInt64.le_trans hmax.2 hstart

/-- The largest key is the one to start with or that of a device. -/
theorem foldl_max_mem (key : Device → UInt64) (l : List Device) (start : UInt64) :
    l.foldl (fun top d => max top (key d)) start = start ∨
      ∃ d ∈ l, key d = l.foldl (fun top d => max top (key d)) start := by
  induction l generalizing start with
  | nil => simp
  | cons e l ih =>
    rw [List.foldl_cons]
    rcases ih (max start (key e)) with hstart | ⟨d, hd, hkey⟩
    · by_cases hle : start ≤ key e
      · right
        refine ⟨e, List.mem_cons_self, ?_⟩
        rw [hstart, UInt64.toNat_inj.symm, UInt64.toNat_max]
        have := UInt64.le_iff_toNat_le.mp hle
        omega
      · left
        rw [hstart, UInt64.toNat_inj.symm, UInt64.toNat_max]
        have := UInt64.le_iff_toNat_le.not.mp hle
        omega
    · exact .inr ⟨d, List.mem_cons_of_mem _ hd, hkey⟩

theorem id_le_highestDeviceId {a : Account} {d : Device} (hd : d ∈ a.body.devices) :
    d.id ≤ a.highestDeviceId :=
  (le_foldl_max (·.id) a.body.devices masterDeviceId).2 d hd

theorem toNat_topDeviceId : topDeviceId.toNat = UInt64.size - 1 := rfl

/-- The highest id is the largest one just if a device has it. -/
theorem highestDeviceId_eq_top_iff {a : Account} :
    a.highestDeviceId = topDeviceId ↔ ∃ d ∈ a.body.devices, d.id = topDeviceId := by
  constructor
  · intro htop
    rcases foldl_max_mem (·.id) a.body.devices masterDeviceId with hmaster | ⟨d, hd, hid⟩
    · have hne : masterDeviceId ≠ topDeviceId := by decide
      exact absurd (hmaster.symm.trans htop) hne
    · exact ⟨d, hd, hid.trans htop⟩
  · rintro ⟨d, hd, hid⟩
    have hle := UInt64.le_iff_toNat_le.mp (id_le_highestDeviceId hd)
    have hlt := a.highestDeviceId.toNat_lt_size
    rw [hid, toNat_topDeviceId] at hle
    rw [UInt64.toNat_inj.symm, toNat_topDeviceId]
    omega

/-! ### The next id -/

/-- The number of the next device is within the range just if there is room. -/
theorem dueDeviceId_lt_iff {a : Account} : a.dueDeviceId < UInt64.size ↔ a.HasRoom := by
  unfold dueDeviceId HasRoom
  cases hfind : a.body.devices.find? (!·.enabled) with
  | some d =>
    have hdisabled : d.enabled = false := by simpa using List.find?_some hfind
    have hroom : ∃ d ∈ a.body.devices, d.enabled = false :=
      ⟨d, List.mem_of_find?_eq_some hfind, hdisabled⟩
    simp [hroom, UInt64.toNat_lt_size]
  | none =>
    have henabled : ∀ d ∈ a.body.devices, d.enabled = true := by
      simpa using List.find?_eq_none.mp hfind
    have hroom : ¬ ∃ d ∈ a.body.devices, d.enabled = false := by
      rintro ⟨d, hd, hdisabled⟩
      rw [henabled d hd] at hdisabled
      cases hdisabled
    have htop : a.highestDeviceId.toNat + 1 < UInt64.size ↔ a.highestDeviceId ≠ topDeviceId := by
      have hlt := a.highestDeviceId.toNat_lt_size
      rw [ne_eq, UInt64.toNat_inj.symm, toNat_topDeviceId]
      omega
    simp only [hroom, false_or, htop, ne_eq, highestDeviceId_eq_top_iff, not_exists, not_and]

/-- The next id has the number of the next device, if that is within the range. -/
theorem nextDeviceId?_eq (a : Account) :
    a.nextDeviceId? = if a.dueDeviceId < UInt64.size then some (.ofNat a.dueDeviceId) else none := by
  unfold nextDeviceId? dueDeviceId
  cases a.body.devices.find? (!·.enabled) with
  | some d => simp [UInt64.toNat_lt_size]
  | none => simp [UInt64.ofNat_add]

theorem nextDeviceId?_eq_none_iff {a : Account} : a.nextDeviceId? = none ↔ ¬ a.HasRoom := by
  rw [nextDeviceId?_eq, ← dueDeviceId_lt_iff]
  simp

theorem toNat_of_nextDeviceId? {a : Account} {id : UInt64} (h : a.nextDeviceId? = some id) :
    id.toNat = a.dueDeviceId := by
  rw [nextDeviceId?_eq] at h
  split at h
  · next hdue => rw [← Option.some.inj h, UInt64.toNat_ofNat_of_lt' hdue]
  · cases h

/-! ### Linking -/

/-- The enabled devices after linking: those before without the id, then the new one. -/
theorem enabled_addDevice_new (a : Account) (id : UInt64) :
    (a.addDevice (.new id)).body.devices.filter (·.enabled)
      = (a.body.devices.filter (·.enabled)).filter (·.id != id) ++ [.new id] := by
  show (a.body.devices.filter (·.id != id) ++ [Device.new id]).filter (·.enabled) = _
  rw [List.filter_append, List.filter_filter, List.filter_filter]
  congr 1
  refine List.filter_congr fun d _ => ?_
  exact Bool.and_comm _ _

/-- Linking goes well just if no enabled device has the id. -/
theorem linksAt_iff {a : Account} (h : a.DistinctIds) {id : UInt64} :
    a.LinksAt id ↔ ∀ d ∈ a.body.devices, d.enabled = true → d.id ≠ id := by
  have hcount : (a.addDevice (.new id)).enabledDeviceCount
      = ((a.body.devices.filter (·.enabled)).filter (·.id != id)).length + 1 := by
    unfold enabledDeviceCount
    rw [enabled_addDevice_new, List.length_append]
    rfl
  constructor
  · intro hlinks d hd henabled
    -- As many enabled devices as before keep their place beside the new one, so all of them do.
    have hall : ((a.body.devices.filter (·.enabled)).filter (·.id != id)).length
        = (a.body.devices.filter (·.enabled)).length := by
      have hmore := hlinks.count
      rw [hcount] at hmore
      unfold enabledDeviceCount at hmore
      omega
    have hkept := List.length_filter_eq_length_iff.mp hall d
      (List.mem_filter.mpr ⟨hd, henabled⟩)
    simpa using hkept
  · intro hfree
    constructor
    · intro d hd henabled
      refine find?_id_of_mem (h.addDevice (.new id)) (List.mem_append_left _ ?_)
      refine List.mem_filter.mpr ⟨hd, ?_⟩
      simpa [Device.new] using hfree d hd henabled
    · have hall : (a.body.devices.filter (·.enabled)).filter (·.id != id)
          = a.body.devices.filter (·.enabled) := by
        refine List.filter_eq_self.mpr fun d hd => ?_
        obtain ⟨hd, henabled⟩ := List.mem_filter.mp hd
        simpa using hfree d hd henabled
      rw [hcount, hall]
      rfl

/-- No enabled device has the next id. -/
theorem ne_of_nextDeviceId? {a : Account} (h : a.DistinctIds) {id : UInt64}
    (hnext : a.nextDeviceId? = some id) {d : Device} (hd : d ∈ a.body.devices)
    (henabled : d.enabled = true) : d.id ≠ id := by
  intro hid
  have hnumber := toNat_of_nextDeviceId? hnext
  rw [← hid] at hnumber
  unfold dueDeviceId at hnumber
  cases hfind : a.body.devices.find? (!·.enabled) with
  | some e =>
    -- The id belongs to a disabled device, and ids occur once.
    rw [hfind] at hnumber
    have hfound := find?_id_of_mem h (List.mem_of_find?_eq_some hfind)
    rw [← UInt64.toNat_inj.mp hnumber, find?_id_of_mem h hd] at hfound
    have hdisabled := List.find?_some hfind
    rw [← Option.some.inj hfound, henabled] at hdisabled
    cases hdisabled
  | none =>
    rw [hfind] at hnumber
    have hle := UInt64.le_iff_toNat_le.mp (id_le_highestDeviceId hd)
    simp only at hnumber
    omega

/-- However devices were added to a new account and removed from it, there is no next id just if
    all devices are enabled and one of them has the largest id.  Otherwise the next id is the
    number of the next device, and linking under it leaves every enabled device as it is, with
    one more enabled device. -/
theorem linking_spares_enabled_iff (u : Uuid) (login : String) (changes : List DeviceChange) :
    let a := ({ uuid := u, login := login } : Account).changeAll changes
    (a.nextDeviceId? = none ↔ ¬ a.HasRoom) ∧
      ∀ id, a.nextDeviceId? = some id → id.toNat = a.dueDeviceId ∧ a.LinksAt id := by
  intro a
  have hnew : ({ uuid := u, login := login } : Account).DistinctIds := List.Pairwise.nil
  have hdistinct : a.DistinctIds := distinctIds_changeAll hnew changes
  refine ⟨nextDeviceId?_eq_none_iff, fun id hid => ⟨toNat_of_nextDeviceId? hid, ?_⟩⟩
  exact (linksAt_iff hdistinct).mpr fun d hd henabled => ne_of_nextDeviceId? hdistinct hid hd henabled

/-- A device with id 0 and one with the largest id are enabled.  One past the highest id is
    `2 ^ 64`, so there is no next id. -/
theorem linking_overflows :
    let first : Device := { id := 0, name := some "first", enabled := true }
    let a := ({ uuid := ⟨.replicate 16 1, rfl⟩, login := "+1" } : Account).changeAll
      [.add first, .add (.new topDeviceId)]
    a.body.devices = [first, .new topDeviceId] ∧ (∀ d ∈ a.body.devices, d.enabled = true) ∧
      a.dueDeviceId = UInt64.size ∧ a.nextDeviceId? = none := by
  decide

end Account

end LoginRegistry
