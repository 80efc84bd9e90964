import SchemaLedger.Connection.Config
import SchemaLedger.Proofs.Entries
import SchemaLedger.Proofs.Schema.Reading

set_option autoImplicit false

/-!
# Addresses of configurations

A configuration that is read from an address makes addresses for the drivers. For PostgreSQL they are
the address under another scheme, but a configuration that asks for encryption replaces what the
address said about it. For SQLite they name the database and nothing else.
-/
namespace SchemaLedger

namespace Url

/-- What is read as an address has a mark behind its scheme. -/
theorem infix_of_read {s : String} {u : Url} (h : Url.read s = .ok u) :
    "://".toList <:+: s.toList := by
  rw [Url.read] at h
  cases hread : readScheme s.toList with
  | none =>
    rw [hread] at h
    cases h
  | some parts =>
    rw [readScheme] at hread
    split at hread
    case h_1 => cases hread
    case h_2 rest hrest _ =>
      refine ⟨s.toList.takeWhile isSchemeChar, rest, ?_⟩
      rw [List.append_assoc]
      exact (congrArg _ hrest.symm).trans List.takeWhile_append_dropWhile
    case h_3 => cases hread

end Url

namespace Config

variable {s : String} {options : Entries} {c : Config} {u : Url} {calling : Calling}

theorem hasScheme_of_read (h : Url.read s = .ok u) : hasScheme s = true :=
  String.contains_string_iff.2 (Url.infix_of_read h)

theorem readUrl_eq_ok {malformed : Error} : readUrl s malformed = .ok u ↔ Url.read s = .ok u :=
  Outcome.mapError_eq_ok _ _ _

/-! ## What a configuration takes from an address -/

/-- The database that an address of SQLite names: without a name it is in memory. -/
def fileOf : Option String → String
  | none | some "" => memoryTarget
  | some file => file

theorem readDialect_name (d : Dialect) : readDialect (.text d.name) = .valid d := by
  cases d <;> rfl

theorem readTarget_eq_valid {target t : String} (h : readTarget (.text target) = .valid t) :
    t = target := by
  rw [readTarget] at h
  split at h
  · cases h
  · cases h
    rfl

theorem checkTls_eq_valid {c' : Config} (h : checkTls c' = .valid c) :
    c' = c ∧ (c.tls = true → c.dialect = .postgresql) := by
  rw [checkTls] at h
  split at h
  case isTrue => cases h
  case isFalse hno =>
    cases h
    refine ⟨rfl, fun htls => ?_⟩
    cases hd : c.dialect with
    | sqlite => simp [htls, hd] at hno
    | postgresql => rfl

theorem readOptions_eq_valid (h : readOptions options = .valid c) :
    Reading.required options "backend" readDialect = .valid c.dialect ∧
      Reading.required options "connection_target" readTarget = .valid c.target ∧
      (c.tls = true → c.dialect = .postgresql) := by
  unfold readOptions at h
  dsimp only at h
  split at h
  case h_1 c' hread =>
    obtain ⟨rfl, htls⟩ := checkTls_eq_valid h
    simp only [Checked.seq_eq_valid, Checked.map_eq_valid] at hread
    obtain ⟨_, _, ⟨_, _, ⟨_, _, ⟨_, _, ⟨_, _, ⟨_, _, ⟨_, hdialect, rfl⟩, htarget, rfl⟩, -, rfl⟩, -,
      rfl⟩, -, rfl⟩, -, rfl⟩, -, rfl⟩ := hread
    exact ⟨hdialect, htarget, htls⟩
  case h_2 hno => exact absurd h (hno c)

theorem build_eq_ok (h : build options = .ok c) : readOptions options = .valid c := by
  unfold build at h
  cases hread : readOptions options with
  | valid c' =>
    rw [hread] at h
    rw [Except.ok.inj h]
  | invalid _ =>
    rw [hread] at h
    cases h
  | refused _ =>
    rw [hread] at h
    cases h

theorem eq_of_build {d : Dialect} {target : String}
    (h : build ([("backend", .text d.name), ("connection_target", .text target)] ++ options) =
      .ok c) : c.dialect = d ∧ c.target = target ∧ (c.tls = true → d = .postgresql) := by
  obtain ⟨hdialect, htarget, htls⟩ := readOptions_eq_valid (build_eq_ok h)
  change (readDialect (.text d.name)).under _ = _ at hdialect
  change (readTarget (.text target)).under _ = _ at htarget
  rw [readDialect_name, Checked.under_valid, Checked.valid.injEq] at hdialect
  rw [Checked.under_eq_valid] at htarget
  exact ⟨hdialect.symm, readTarget_eq_valid htarget, hdialect ▸ htls⟩

/-- The target of a configuration that is read from an address: the file that an address of SQLite
names, and for PostgreSQL the address as it stands. -/
def targetOf (s : String) (u : Url) : Dialect → String
  | .sqlite => fileOf u.database
  | .postgresql => s

theorem targetOfUrl_eq_ok {d : Dialect} {target : String}
    (h : targetOfUrl s u = .ok (d, target)) :
    Dialect.ofName? u.system = some d ∧ target = targetOf s u d := by
  rw [targetOfUrl] at h
  split at h
  case h_1 hd =>
    split at h
    case h_1 hfile =>
      cases h
      exact ⟨hd, by rw [targetOf, hfile, fileOf]⟩
    case h_2 file hno hfile =>
      cases h
      refine ⟨hd, ?_⟩
      rw [targetOf, hfile, fileOf]
      exact fun hempty => hno hempty
    case h_3 hfile =>
      cases h
      exact ⟨hd, by rw [targetOf, hfile, fileOf]⟩
  case h_2 hd =>
    cases h
    exact ⟨hd, rfl⟩
  case h_3 => cases h

theorem ofUrl_eq_ok (h : ofUrl s options = .ok c) :
    ∃ u, Url.read s = .ok u ∧ Dialect.ofName? u.system = some c.dialect ∧
      c.target = targetOf s u c.dialect ∧ (c.tls = true → c.dialect = .postgresql) := by
  obtain ⟨u, hread, h⟩ := (Outcome.bind_eq_ok _ _ _).1 h
  obtain ⟨⟨d, target⟩, htarget, h⟩ := (Outcome.bind_eq_ok _ _ _).1 h
  dsimp only at h
  split at h
  case isTrue => cases h
  case isFalse =>
    obtain ⟨hd, rfl⟩ := targetOfUrl_eq_ok htarget
    obtain ⟨rfl, htarget, htls⟩ := eq_of_build h
    exact ⟨u, readUrl_eq_ok.1 hread, hd, htarget, htls⟩

/-! ## What an address keeps -/

/-- The database that an address names. -/
def databaseOf : Dialect → Url → Option String
  | .sqlite, u => some (fileOf u.database)
  | .postgresql, u => u.database

/-- Nothing that an address says is lost in another one: who connects, to which host, port and
database, and all options, in their order and with their values. Only the option that asks for
encryption may be new. -/
structure Keeps (c : Config) (calling : Calling) (u a : Url) : Prop where
  user : a.user = u.user
  password : a.password = u.password
  host : a.host = u.host
  port : a.port = u.port
  database : databaseOf c.dialect a = databaseOf c.dialect u
  options : a.options =
    if c.tls = true ∧ Entries.get? (tlsOption calling) u.options = none then
      u.options ++ [(tlsOption calling, ["require"])]
    else u.options

/-- What becomes of an address that a configuration was read from. -/
inductive Passes (c : Config) (calling : Calling) (u : Url) : Url → Prop
  /-- Of an address of SQLite nothing but its database is left. -/
  | file (hd : c.dialect = .sqlite) : Passes c calling u
      { scheme := driverScheme .sqlite calling, database := some (fileOf u.database) }
  | plain (hd : c.dialect = .postgresql) (htls : c.tls = false) :
    Passes c calling u { u with scheme := driverScheme .postgresql calling }
  /-- Encryption is asked for, whatever the address itself says about it. -/
  | encrypted (hd : c.dialect = .postgresql) (htls : c.tls = true) :
    Passes c calling u { u with
      scheme := driverScheme .postgresql calling
      options := Entries.put (tlsOption calling) ["require"] u.options }

/-- There is nothing in an address that can be lost: one of SQLite says no more than the database,
and one of PostgreSQL asks for no other kind of encryption than the configuration. -/
structure Spare (c : Config) (calling : Calling) (u : Url) : Prop where
  file : c.dialect = .sqlite →
    u.user = none ∧ u.password = none ∧ u.host = none ∧ u.port = none ∧ u.options = []
  encrypted : c.tls = true →
    ∀ values, Entries.get? (tlsOption calling) u.options = some values → values = ["require"]

theorem fileOf_fileOf (name : Option String) : fileOf (some (fileOf name)) = fileOf name := by
  rw [fileOf.eq_def name]
  split
  · rfl
  · rfl
  · rw [fileOf]
    assumption

theorem keeps_file (hd : c.dialect = .sqlite) (htls : c.tls = false) :
    Keeps c calling u { scheme := driverScheme .sqlite calling, database := some (fileOf u.database) } ↔
      Spare c calling u := by
  have hplain : ¬(c.tls = true ∧ Entries.get? (tlsOption calling) u.options = none) := by simp [htls]
  constructor
  · intro hk
    have hoptions := hk.options
    rw [if_neg hplain] at hoptions
    refine ⟨fun _ => ⟨hk.user.symm, hk.password.symm, hk.host.symm, hk.port.symm, hoptions.symm⟩,
      fun ht => ?_⟩
    cases htls.symm.trans ht
  · intro hs
    obtain ⟨huser, hpassword, hhost, hport, hoptions⟩ := hs.file hd
    refine ⟨huser.symm, hpassword.symm, hhost.symm, hport.symm, ?_, ?_⟩
    · rw [hd, databaseOf, databaseOf, fileOf_fileOf]
    · rw [if_neg hplain, hoptions]

/-- An option that is put is the old one, or a new one behind the others, unless it had another
value. -/
theorem put_eq_iff {name : String} {options : List (String × List String)} {values : List String} :
    (Entries.put name values options =
      if Entries.get? name options = none then options ++ [(name, values)] else options) ↔
    ∀ old, Entries.get? name options = some old → old = values := by
  cases hget : Entries.get? name options with
  | none => simp [Entries.put_of_notMem (Entries.get?_eq_none.1 hget)]
  | some old => simp [Entries.put_eq_self_iff, hget]

theorem keeps_iff {a : Url} (htls : c.tls = true → c.dialect = .postgresql)
    (h : Passes c calling u a) : Keeps c calling u a ↔ Spare c calling u := by
  cases h with
  | file hd =>
    refine keeps_file hd (Bool.eq_false_iff.2 fun ht => ?_)
    cases hd.symm.trans (htls ht)
  | plain hd ht =>
    refine iff_of_true ⟨rfl, rfl, rfl, rfl, ?_, ?_⟩ ⟨fun hs => ?_, fun hno => ?_⟩
    · rw [hd, databaseOf, databaseOf]
    · simp [ht]
    · cases hd.symm.trans hs
    · cases ht.symm.trans hno
  | encrypted hd ht =>
    have hspare : Spare c calling u ↔ ∀ old,
        Entries.get? (tlsOption calling) u.options = some old → old = ["require"] := by
      refine ⟨fun hs => hs.encrypted ht, fun hs => ⟨fun hno => ?_, fun _ => hs⟩⟩
      cases hd.symm.trans hno
    rw [hspare, ← put_eq_iff]
    constructor
    · intro hk
      simpa [ht] using hk.options
    · intro hput
      refine ⟨rfl, rfl, rfl, rfl, ?_, ?_⟩
      · rw [hd, databaseOf, databaseOf]
      · simpa [ht] using hput

theorem passes_of_target (hread : Url.read s = .ok u) (htarget : c.target = targetOf s u c.dialect)
    (calling : Calling) : ∃ a, c.address calling = .ok a ∧ Passes c calling u a := by
  cases hd : c.dialect with
  | sqlite =>
    rw [address, htarget, hd]
    exact ⟨_, rfl, .file hd⟩
  | postgresql =>
    have haddress : c.address calling = .ok
        (if c.tls then { u with scheme := driverScheme .postgresql calling }.withOption
          (tlsOption calling) "require"
        else { u with scheme := driverScheme .postgresql calling }) := by
      have hself : c.target = s := by rw [htarget, hd, targetOf]
      rw [address, hself, hd]
      dsimp only
      rw [if_pos (hasScheme_of_read hread), readUrl_eq_ok.2 hread]
      rfl
    rw [haddress]
    cases ht : c.tls with
    | false => exact ⟨_, rfl, .plain hd ht⟩
    | true => exact ⟨_, rfl, .encrypted hd ht⟩

/-- An accepted address is passed on to each driver. Nothing of it is lost exactly if it names no
more than the database, for SQLite, and for PostgreSQL if a configuration that asks for encryption
does not override what the address asks for. -/
theorem keeps_iff_of_ofUrl (h : ofUrl s options = .ok c) :
    ∃ u, Url.read s = .ok u ∧ Dialect.ofName? u.system = some c.dialect ∧
      ∀ calling, ∃ a, c.address calling = .ok a ∧ Passes c calling u a ∧
        (Keeps c calling u a ↔ Spare c calling u) := by
  obtain ⟨u, hread, hd, htarget, htls⟩ := ofUrl_eq_ok h
  refine ⟨u, hread, hd, fun calling => ?_⟩
  obtain ⟨a, haddress, hpasses⟩ := passes_of_target hread htarget calling
  exact ⟨a, haddress, hpasses, keeps_iff htls hpasses⟩

/-- A file that is to be opened for reading only. -/
def readOnlyAddress : Url :=
  { scheme := "sqlite", database := some "app.db", options := [("mode", ["ro"])] }

/-- A server whose certificate is to be checked. -/
def verifiedAddress : Url :=
  { scheme := "postgresql", user := some "ann", password := some "pw", host := some "db",
    database := some "app", options := [("sslmode", ["verify-full"])] }

theorem keeps_iff_of_ofUrl_careful :
    (∃ c a, ofUrl "sqlite:///app.db?mode=ro" [] = .ok c ∧ c.address .blocking = .ok a ∧
      ¬Keeps c .blocking readOnlyAddress a) ∧
    ∃ c a, ofUrl "postgresql://ann:pw@db/app?sslmode=verify-full" [("tls", .bool true)] = .ok c ∧
      c.address .blocking = .ok a ∧ ¬Keeps c .blocking verifiedAddress a := by
  constructor
  · obtain ⟨c, hc⟩ := Outcome.exists_ok
      (by decide +kernel : (ofUrl "sqlite:///app.db?mode=ro" []).isOk = true)
    obtain ⟨u, hread, hd, haddress⟩ := keeps_iff_of_ofUrl hc
    obtain ⟨a, ha, -, hkeeps⟩ := haddress .blocking
    have hu : Url.read "sqlite:///app.db?mode=ro" = .ok readOnlyAddress := by decide +kernel
    cases hread.symm.trans hu
    have hsqlite : c.dialect = .sqlite := Option.some.inj (hd.symm.trans (by decide +kernel))
    refine ⟨c, a, hc, ha, fun hk => ?_⟩
    obtain ⟨-, -, -, -, hoptions⟩ := (hkeeps.1 hk).file hsqlite
    cases hoptions
  · have htls : ((ofUrl "postgresql://ann:pw@db/app?sslmode=verify-full"
        [("tls", .bool true)]).toOption.map (·.tls)) = some true := by decide +kernel
    cases hc : ofUrl "postgresql://ann:pw@db/app?sslmode=verify-full" [("tls", .bool true)] with
    | error e =>
      rw [hc] at htls
      cases htls
    | ok c =>
      rw [hc] at htls
      obtain ⟨u, hread, -, haddress⟩ := keeps_iff_of_ofUrl hc
      obtain ⟨a, ha, -, hkeeps⟩ := haddress .blocking
      have hu : Url.read "postgresql://ann:pw@db/app?sslmode=verify-full" =
        .ok verifiedAddress := by decide +kernel
      cases hread.symm.trans hu
      refine ⟨c, a, rfl, ha, fun hk => ?_⟩
      have hvalues := (hkeeps.1 hk).encrypted (Option.some.inj htls) ["verify-full"] (by decide)
      exact absurd hvalues (by decide)

end Config

end SchemaLedger
