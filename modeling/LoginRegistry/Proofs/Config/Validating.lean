import LoginRegistry.Registry.Basic
import Mathlib.Data.List.Basic

/-! # Valid configurations

    Each section is checked field by field, and the first problem is the answer.  Here stands what
    passes, without the order of the checks.

    * `validate_eq_ok_iff`, for each section: what the section needs.
    * `Registry.exists_ofConfig_iff`: a registry is made of the configurations that have it all. -/

namespace LoginRegistry

/-- A check is passed if its case does not arise and the checks after it are passed. -/
theorem check_eq_ok_iff {ε : Type} {p : Prop} [Decidable p] {e : ε} {later : Except ε Unit} :
    (if p then .error e else later) = .ok () ↔ ¬ p ∧ later = .ok () := by
  by_cases hp : p <;> simp [hp]

/-! ### Table names -/

namespace TableNames

/-- The five names. -/
def names (t : TableNames) : List String := [t.accounts, t.logins, t.misc, t.tombstones, t.retries]

theorem validateNames_eq_ok_iff {l : List (String × String)} :
    validateNames l = .ok () ↔ (∀ e ∈ l, e.2 ≠ "") ∧ (l.map Prod.snd).Nodup := by
  induction l with
  | nil => simp [validateNames]
  | cons e rest ih =>
    obtain ⟨field, name⟩ := e
    have hfind : (∃ other, rest.find? (·.2 == name) = some other) ↔ name ∈ rest.map Prod.snd := by
      rw [← Option.isSome_iff_exists, List.find?_isSome, List.mem_map]
      simp
    rw [validateNames, check_eq_ok_iff, List.forall_mem_cons, List.map_cons, List.nodup_cons,
      String.isEmpty_iff, and_assoc]
    refine and_congr_right fun _ => ?_
    cases hother : rest.find? (·.2 == name) with
    | some other =>
      have hshared := hfind.mp ⟨other, hother⟩
      simp [hshared]
    | none =>
      have hfresh : name ∉ rest.map Prod.snd := by
        rw [← hfind, hother]
        simp
      simp only [ih, hfresh, not_false_eq_true, true_and]

theorem validate_eq_ok_iff {t : TableNames} :
    t.validate = .ok () ↔ (∀ name ∈ t.names, name ≠ "") ∧ t.names.Nodup := by
  have hnames : t.names = t.all.map Prod.snd := rfl
  rw [validate, validateNames_eq_ok_iff, hnames, List.forall_mem_map]

end TableNames

/-! ### Numbers -/

theorem BulkSettings.validate_eq_ok_iff {s : BulkSettings} :
    s.validate = .ok () ↔ 0 < s.maxAttempts ∧ 0 < s.maxBatchSize ∧ s.maxBatchSize ≤ 25 := by
  have hmax : ¬ maxBulkWrites < s.maxBatchSize.toNat ↔ s.maxBatchSize ≤ 25 := by
    rw [UInt64.le_iff_toNat_le, Nat.not_lt]
    rfl
  simp only [validate, check_eq_ok_iff, not_or, hmax, and_true, UInt32.pos_iff_ne_zero,
    UInt64.pos_iff_ne_zero, ne_eq]

theorem MigrationSettings.validate_eq_ok_iff {s : MigrationSettings} :
    s.validate = .ok () ↔ 0 < s.defaultWorkers ∧ 0 < s.maxWorkers ∧ 0 < s.redriveBatchSize ∧
      0 < s.reconcilePageSize ∧ s.defaultWorkers ≤ s.maxWorkers := by
  simp only [validate, check_eq_ok_iff, and_true, UInt64.not_lt, UInt64.pos_iff_ne_zero, ne_eq]

/-! ### Whole configurations -/

/-- What a configuration needs. -/
structure Config.IsValid (c : Config) : Prop where
  named : ∀ name ∈ c.tables.names, name ≠ ""
  distinct : c.tables.names.Nodup
  attempts : 1 ≤ c.bulk.maxAttempts
  batch : 1 ≤ c.bulk.maxBatchSize ∧ c.bulk.maxBatchSize ≤ 25
  positive : 0 < c.migration.defaultWorkers ∧ 0 < c.migration.maxWorkers ∧
    0 < c.migration.redriveBatchSize ∧ 0 < c.migration.reconcilePageSize
  workers : c.migration.defaultWorkers ≤ c.migration.maxWorkers

/-- A configuration is valid if its sections are. -/
theorem Config.validate_eq_ok_iff {c : Config} :
    c.validate = .ok () ↔ c.tables.validate = .ok () ∧ c.bulk.validate = .ok () ∧
      c.migration.validate = .ok () := by
  unfold validate
  cases c.tables.validate with
  | error e => exact ⟨nofun, fun h => nomatch h.1⟩
  | ok _ =>
    cases c.bulk.validate with
    | error e => exact ⟨nofun, fun h => nomatch h.2.1⟩
    | ok _ => exact ⟨fun h => ⟨rfl, rfl, h⟩, fun h => h.2.2⟩

theorem Config.validate_eq_ok_iff_isValid {c : Config} : c.validate = .ok () ↔ c.IsValid := by
  rw [validate_eq_ok_iff, TableNames.validate_eq_ok_iff, BulkSettings.validate_eq_ok_iff,
    MigrationSettings.validate_eq_ok_iff]
  constructor
  · rintro ⟨⟨hnamed, hdistinct⟩, ⟨hattempts, hpositive, hmax⟩, hdefault, hmost, hredrive, hpage, hle⟩
    exact ⟨hnamed, hdistinct, hattempts, ⟨hpositive, hmax⟩, ⟨hdefault, hmost, hredrive, hpage⟩, hle⟩
  · rintro ⟨hnamed, hdistinct, hattempts, ⟨hpositive, hmax⟩, ⟨hdefault, hmost, hredrive, hpage⟩, hle⟩
    exact ⟨⟨hnamed, hdistinct⟩, ⟨hattempts, hpositive, hmax⟩, hdefault, hmost, hredrive, hpage, hle⟩

namespace Registry

/-- A registry is made of a valid configuration. -/
theorem ofConfig_eq_ok_iff {c : Config} {r : Registry} :
    ofConfig c = .ok r ↔ c.validate = .ok () ∧ r = ⟨c⟩ := by
  unfold ofConfig
  cases c.validate with
  | error e => exact ⟨nofun, fun h => nomatch h.1⟩
  | ok _ => exact ⟨fun h => ⟨rfl, (Except.ok.inj h).symm⟩, fun h => congrArg _ h.2.symm⟩

theorem exists_ofConfig_iff {c : Config} : (∃ r, ofConfig c = .ok r) ↔ c.IsValid := by
  simp only [ofConfig_eq_ok_iff, exists_and_left, exists_eq, and_true,
    Config.validate_eq_ok_iff_isValid]

end Registry

end LoginRegistry
