import LoginRegistry.Proofs.Account

/-! # The device list

    The devices of an account are a map by id that keeps the order in which they were last added.
    Adding filters the list and appends to it, so that ids occur once is all that makes it a map.

    * `device?_changeAll`: what is found under an id is what the last change about it left there.
    * `devices_changeAll`: the list is the devices that no change was about, in their old order,
      and then the additions that stand, in the order in which they were made.
    * `devices_after_changes`: both, and what else a caller can see of the list.
-/

namespace LoginRegistry

namespace DeviceChange

/-- The id that a change is about. -/
def id : DeviceChange → UInt64
  | .add device => device.id
  | .remove id => id

/-- The device that a change leaves under its id. -/
def device? : DeviceChange → Option Device
  | .add device => some device
  | .remove _ => none

/-- The last of some changes that is about an id. -/
def last? (changes : List DeviceChange) (id : UInt64) : Option DeviceChange :=
  changes.reverse.find? (·.id == id)

/-- The devices that some changes add and that no later one of them is about, in the order in
    which they are added. -/
def standing : List DeviceChange → List Device
  | [] => []
  | c :: later =>
    if (last? later c.id).isSome then standing later else c.device?.toList ++ standing later

/-- The first change counts only if no later one is about the id. -/
theorem last?_cons (c : DeviceChange) (later : List DeviceChange) (id : UInt64) :
    last? (c :: later) id = (last? later id).or (if c.id = id then some c else none) := by
  simp only [last?, List.reverse_cons, List.find?_append, List.find?_singleton, beq_iff_eq]

theorem id_of_device? {c : DeviceChange} {d : Device} (h : c.device? = some d) : d.id = c.id := by
  cases c with
  | add device =>
    rw [← Option.some.inj h]
    rfl
  | remove id => cases h

end DeviceChange

namespace Account

open DeviceChange (last? standing)

/-- The latest activity of some devices, 0 if there are none. -/
structure IsLatest (devices : List Device) (time : UInt64) : Prop where
  upper : ∀ d ∈ devices, d.lastSeen ≤ time
  attained : devices ≠ [] → ∃ d ∈ devices, d.lastSeen = time
  none : devices = [] → time = 0

/-! ### One change -/

/-- A change drops what was under its id and appends what it leaves there. -/
theorem devices_change (a : Account) (c : DeviceChange) :
    (a.change c).body.devices = a.body.devices.filter (·.id != c.id) ++ c.device?.toList := by
  cases c with
  | add device => rfl
  | remove id => exact (List.append_nil _).symm

/-- A change decides what is found under its id and under no other. -/
theorem device?_change (a : Account) (c : DeviceChange) (id : UInt64) :
    (a.change c).device? id = if c.id = id then c.device? else a.device? id := by
  unfold device?
  rw [devices_change, List.find?_append]
  by_cases hid : c.id = id
  · subst hid
    have hold : (a.body.devices.filter (·.id != c.id)).find? (·.id == c.id) = .none := by
      simp
    rw [hold, Option.none_or, if_pos rfl]
    cases hd : c.device? with
    | none => rfl
    | some d => simp [DeviceChange.id_of_device? hd]
  · have hold : (a.body.devices.filter (·.id != c.id)).find? (·.id == id)
        = a.body.devices.find? (·.id == id) := by
      rw [List.find?_filter]
      congr 1
      funext d
      by_cases hd : d.id = id
      · simp [hd, Ne.symm hid]
      · simp [hd]
    have hnew : c.device?.toList.find? (·.id == id) = .none := by
      cases hd : c.device? with
      | none => rfl
      | some d => simp [DeviceChange.id_of_device? hd, hid]
    rw [hold, hnew, Option.or_none, if_neg hid]

/-! ### Any changes -/

/-- What is found under an id is what the last change about it left there. -/
theorem device?_changeAll (a : Account) (changes : List DeviceChange) (id : UInt64) :
    (a.changeAll changes).device? id
      = (last? changes id).elim (a.device? id) DeviceChange.device? := by
  induction changes generalizing a with
  | nil => rfl
  | cons c later ih =>
    show ((a.change c).changeAll later).device? id = _
    rw [ih, device?_change, DeviceChange.last?_cons]
    cases last? later id with
    | some c' => rfl
    | none => split <;> rfl

/-- The list is the devices that no change was about and then the additions that stand. -/
theorem devices_changeAll (a : Account) (changes : List DeviceChange) :
    (a.changeAll changes).body.devices
      = a.body.devices.filter (fun d => (last? changes d.id).isNone) ++ standing changes := by
  induction changes generalizing a with
  | nil =>
    show a.body.devices = a.body.devices.filter (fun _ => true) ++ []
    simp
  | cons c later ih =>
    show ((a.change c).changeAll later).body.devices = _
    rw [ih, devices_change, List.filter_append, List.filter_filter, List.append_assoc]
    congr 1
    · -- An old device is left alone by all the changes if it is by the first and by the others.
      refine List.filter_congr fun d _ => ?_
      rw [DeviceChange.last?_cons]
      by_cases hid : c.id = d.id
      · simp [hid]
      · simp [hid, Ne.symm hid]
    · -- The device of the first change stands if no other change is about its id.
      show _ = (if (last? later c.id).isSome then _ else _)
      cases hd : c.device? with
      | none => simp
      | some d =>
        have hid := DeviceChange.id_of_device? hd
        cases hlast : last? later c.id with
        | none => simp [hid, hlast]
        | some c' => simp [hid, hlast]

/-- The activity that an account reports is the latest of its devices. -/
theorem isLatest_lastSeen (a : Account) : IsLatest a.body.devices a.lastSeen where
  upper := (le_foldl_max (·.lastSeen) a.body.devices 0).2
  attained := by
    intro hdevices
    obtain hzero | hmem := foldl_max_mem (·.lastSeen) a.body.devices 0
    · obtain ⟨d, hd⟩ := List.exists_mem_of_ne_nil _ hdevices
      have hle := (le_foldl_max (·.lastSeen) a.body.devices 0).2 d hd
      rw [hzero, UInt64.le_iff_toNat_le] at hle
      refine ⟨d, hd, ?_⟩
      rw [show a.lastSeen = 0 from hzero, UInt64.toNat_inj.symm]
      exact Nat.le_zero.mp hle
    · exact hmem
  none := by
    intro hdevices
    unfold lastSeen
    rw [hdevices]
    rfl

/-- However devices are added to an account and removed from it, ids that occurred once still do.
    What is found under an id is what the last change about it left there, without one the device
    from before.  Removing tells whether the id is there.  The devices that no change was about
    keep their order and come first, the others follow in the order of their last additions.  The
    activity reported is the latest of just these devices. -/
theorem devices_after_changes {a : Account} (h : a.DistinctIds) (changes : List DeviceChange) :
    let b := a.changeAll changes
    b.DistinctIds ∧
      (∀ id, b.device? id = (last? changes id).elim (a.device? id) DeviceChange.device?) ∧
      (∀ id, (b.removeDevice id).1 = true ↔ id ∈ b.body.devices.map (·.id)) ∧
      b.body.devices
        = a.body.devices.filter (fun d => (last? changes d.id).isNone) ++ standing changes ∧
      IsLatest b.body.devices b.lastSeen := by
  intro b
  refine ⟨distinctIds_changeAll h changes, device?_changeAll a changes, fun id => ?_,
    devices_changeAll a changes, isLatest_lastSeen b⟩
  simp [removeDevice]

/-- Of three devices one is replaced and one is removed, and a new one comes and is replaced. -/
theorem devices_after_changes_mixed :
    let device (id lastSeen : UInt64) : Device := { id := id, lastSeen := lastSeen }
    let a := ({ uuid := ⟨.replicate 16 1, rfl⟩, login := "+1" } : Account).withDevices
      [device 1 10, device 2 20, device 3 30]
    let changes : List DeviceChange :=
      [.add (device 7 70), .add (device 1 11), .remove 3, .add (device 7 8)]
    let b := a.changeAll changes
    a.DistinctIds ∧ b.body.devices = [device 2 20, device 1 11, device 7 8] ∧
      IsLatest b.body.devices 20 := by
  intro device a changes b
  have hdistinct : a.DistinctIds := by
    unfold DistinctIds
    decide
  obtain ⟨-, -, -, hdevices, hlatest⟩ := devices_after_changes hdistinct changes
  have hb : b.body.devices = [device 2 20, device 1 11, device 7 8] :=
    hdevices.trans (by decide)
  have hseen : b.lastSeen = 20 := by decide
  exact ⟨hdistinct, hb, hseen ▸ hlatest⟩

end Account

end LoginRegistry
