import LoginRegistry.Config.Error

/-! # Table names

    The registry uses five tables, which need five different names: two tables
    under one name would let the rows of one hide those of the other.
-/

namespace LoginRegistry

/-- The names of the registry's tables. -/
structure TableNames where
  /-- Accounts by id. -/
  accounts : String := "accounts"
  /-- Owners by login. -/
  logins : String := "accounts_logins"
  /-- Parameters, among them the directory version. -/
  misc : String := "misc"
  /-- Deleted accounts to be swept. -/
  tombstones : String := "migration_deleted_accounts"
  /-- Accounts whose migration has to be driven again. -/
  retries : String := "migration_retry_accounts"
  deriving DecidableEq, Repr

namespace TableNames

/-- Each field with its name. -/
def all (t : TableNames) : List (String × String) :=
  [("accounts", t.accounts), ("logins", t.logins), ("misc", t.misc),
    ("tombstones", t.tombstones), ("retries", t.retries)]

/-- Checks each name against emptiness and against the names after it. -/
def validateNames : List (String × String) → Except ConfigError Unit
  | [] => .ok ()
  | (field, name) :: rest =>
    if name.isEmpty then .error (.emptyTableName field)
    else
      match rest.find? (·.2 == name) with
      | some other => .error (.sharedTableName field other.1 name)
      | none => validateNames rest

/-- Accepts five different names that are not empty. -/
def validate (t : TableNames) : Except ConfigError Unit := validateNames t.all

/-- The names that a caller picks; the others keep their default. -/
structure Choice where
  accounts : Option String := none
  logins : Option String := none
  misc : Option String := none
  tombstones : Option String := none
  retries : Option String := none

/-- The table names of a choice, if they are valid. -/
def build (c : Choice) : Except ConfigError TableNames := do
  let d : TableNames := {}
  let t : TableNames :=
    ⟨c.accounts.getD d.accounts, c.logins.getD d.logins, c.misc.getD d.misc,
      c.tombstones.getD d.tombstones, c.retries.getD d.retries⟩
  t.validate
  return t

end TableNames

end LoginRegistry
