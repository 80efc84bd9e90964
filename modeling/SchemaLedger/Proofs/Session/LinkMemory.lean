import Mathlib.Data.List.Sort
import SchemaLedger.Proofs.Session.Links
import SchemaLedger.Proofs.Session.Memory

set_option autoImplicit false

/-!
# A database in memory that keeps links

The database in memory, with the pairs of keys that are linked along each relationship. No pair is
linked twice, and none of a record that there is not: what would make it so is refused. A selection
comes in the order of the first key that it is to be sorted by.
-/
namespace SchemaLedger

open Sql (Assignment Exchanged)

namespace LinkMemory

open Memory (Sheets cells shown order)

/-- Links by the names of their join tables, each with the keys of an owner and a target. -/
abbrev Links := List (String × Int × Int)

/-- The keys of the records of an entity. -/
def keys (sheets : Sheets) (e : Entity) : List (Option Int) :=
  (sheets e.name).map (Memory.number? e)

/-- Whether no link stands twice, and each along a relationship has an owner and a target. -/
def fits (s : Schema) (sheets : Sheets) (links : Links) : Bool :=
  decide links.Nodup && s.entities.all fun e => e.links.all fun l => links.all fun x =>
    x.1 != joinEntityName e.name l.name || (decide (some x.2.1 ∈ keys sheets e) &&
      (s.entity? l.target).all fun target => decide (some x.2.2 ∈ keys sheets target))

def row (x : String × Int × Int) : Sql.Row cells := fun column =>
  if column = "owner" then some (.int x.2.1)
  else if column = "has" then some (.int x.2.2)
  else none

def contents (s : Schema) (sheets : Sheets) (links : Links) : Sql.Contents cells := fun table =>
  if (s.entity? table).isSome then Memory.contents s sheets table
  else (links.filter (·.1 = table)).map row

/-- Null stands before all else. -/
def le : Option Value → Option Value → Bool
  | none, _ => true
  | some _, none => false
  | some a, some b => (order a b).isLE

def arrange (q : Sql.Select) (scs : List (Sql.Scope cells)) : List (Sql.Scope cells) :=
  match q.ordering with
  | [] => scs
  | k :: _ => scs.insertionSort fun a b => le (a.read k.column) (b.read k.column) = true

end LinkMemory

/-- The records and links as the open transaction sees them, and those that a rollback brings back. -/
structure LinkMemory (s : Schema) where
  memory : Memory s
  links : LinkMemory.Links
  kept : LinkMemory.Links
  fit : LinkMemory.fits s memory.sheets.1 links = true
  keptFit : LinkMemory.fits s memory.kept.1 kept = true
  settled : memory.inside = false → kept = links

namespace LinkMemory

open Memory (Sheets cells shown order refusal)

variable {s : Schema}

/-! ## The server -/

def rows (m : LinkMemory s) : Sql.Contents cells := contents s m.memory.sheets.1 m.links

/-- Takes over what a statement has made of the records, if all links keep theirs. -/
def relay (m : LinkMemory s) (r : Except DriverError Reply × Memory s) :
    Except DriverError Reply × LinkMemory s :=
  match r.1 with
  | .error e => (.error e, m)
  | .ok reply =>
    if h : fits s r.2.sheets.1 m.links = true then
      (.ok reply, ⟨⟨r.2.sheets, m.memory.kept, true, nofun⟩, m.links, m.kept, h, m.keptFit, nofun⟩)
    else (.error refusal, m)

/-- Writes the links, if they have their records and none stands twice. -/
def write (m : LinkMemory s) (links : Links) (reply : Reply) :
    Except DriverError Reply × LinkMemory s :=
  if h : fits s m.memory.sheets.1 links = true then
    (.ok reply, ⟨⟨m.memory.sheets, m.memory.kept, true, nofun⟩, links, m.kept, h, m.keptFit, nofun⟩)
  else (.error refusal, m)

def insert (m : LinkMemory s) (i : Sql.Insert) : Except DriverError Reply × LinkMemory s :=
  if (s.entity? i.table).isSome then m.relay (m.memory.insert i)
  else
    match Memory.given i.assignments with
    | [(_, .int x), (_, .int y)] => m.write (m.links ++ [(i.table, x, y)]) {}
    | _ => (.error refusal, m)

/-- Whether a statement reaches a link. -/
def reaches (m : LinkMemory s) (table : String) (c : Sql.Condition) (x : String × Int × Int) : Bool :=
  decide (x.1 = table) && c.reaches m.rows table (row x)

def delete (m : LinkMemory s) (x : Sql.Delete) : Except DriverError Reply × LinkMemory s :=
  if (s.entity? x.table).isSome then m.relay (m.memory.delete x)
  else
    let reached := m.reaches x.table x.condition
    m.write (m.links.filter fun l => !reached l) { changed := m.links.countP reached }

def answer (r : Request) (_ : List (String × Sql.Bound)) (m : LinkMemory s) :
    Except DriverError Reply × LinkMemory s :=
  match r with
  | .begin _ =>
    if m.memory.inside then (.error refusal, m)
    else
      (.ok {}, ⟨⟨m.memory.sheets, m.memory.kept, true, nofun⟩, m.links, m.kept, m.fit, m.keptFit,
        nofun⟩)
  | .select q =>
    (.ok { rows := (arrange q (q.scopes m.rows)).map fun sc =>
      q.outputs.map fun o => shown (sc.read o.column) }, m)
  | .insert i => m.insert i
  | .update u => m.relay (m.memory.update u)
  | .delete x => m.delete x
  | _ => (.ok {}, m)

def server (s : Schema) : Server (LinkMemory s) where
  connect m := (.ok (), m)
  answer := answer
  commit m := (.ok (), ⟨⟨m.memory.sheets, m.memory.sheets, false, fun _ => rfl⟩, m.links, m.links,
    m.fit, m.fit, fun _ => rfl⟩)
  rollback m := ⟨⟨m.memory.kept, m.memory.kept, false, fun _ => rfl⟩, m.kept, m.kept, m.keptFit,
    m.keptFit, fun _ => rfl⟩

/-! ## Order -/

instance : Std.TransCmp order :=
  inferInstanceAs (Std.TransCmp (compareLex (compareOn Memory.kind)
    (compareLex (compareOn Memory.number) (compareOn Memory.label))))

theorem le_total (a b : Option Value) : le a b = true ∨ le b a = true := by
  cases a with
  | none => exact Or.inl rfl
  | some x =>
    cases b with
    | none => exact Or.inr rfl
    | some y =>
      rw [le, le, ← Memory.swap_order x y]
      cases order x y <;> simp

theorem le_trans {a b c : Option Value} (hab : le a b = true) (hbc : le b c = true) :
    le a c = true := by
  cases a with
  | none => rfl
  | some x =>
    cases b with
    | none => cases hab
    | some y =>
      cases c with
      | none => cases hbc
      | some z => exact Std.TransCmp.isLE_trans hab hbc

theorem not_after_of_le {t : LogicalType} {a b : Option Value} (h : le a b = true) :
    cells.test .gt t t a b ≠ some true := by
  cases a with
  | none => nofun
  | some x =>
    cases b with
    | none => nofun
    | some y =>
      rw [le] at h
      simp only [Sql.Cells.test, Comparison.holds, ne_eq, Option.some.injEq, decide_eq_true_eq]
      intro hgt
      change order x y = .gt at hgt
      rw [hgt] at h
      cases h

theorem perm_arrange (q : Sql.Select) (scs : List (Sql.Scope cells)) : (arrange q scs).Perm scs := by
  rw [arrange]
  split
  · exact .refl _
  · exact List.perm_insertionSort _ _

theorem pairwise_arrange {q : Sql.Select} {k : Sql.SortKey} {rest : List Sql.SortKey}
    (hq : q.ordering = k :: rest) (scs : List (Sql.Scope cells)) (t : LogicalType) :
    (arrange q scs).Pairwise fun a b =>
      cells.test .gt t t (a.read k.column) (b.read k.column) ≠ some true := by
  let below (a b : Sql.Scope cells) : Prop := le (a.read k.column) (b.read k.column) = true
  have : Std.Total below := ⟨fun _ _ => le_total _ _⟩
  have : IsTrans _ below := ⟨fun _ _ _ => le_trans⟩
  rw [arrange, hq]
  exact (List.pairwise_insertionSort below scs).imp not_after_of_le

/-! ## Links -/

section Fitting

variable {sheets : Sheets} {links : Links}

theorem fits_iff : fits s sheets links = true ↔ links.Nodup ∧ ∀ e ∈ s.entities, ∀ l ∈ e.links,
    ∀ x ∈ links, x.1 = joinEntityName e.name l.name → some x.2.1 ∈ keys sheets e ∧
      ∀ target, s.entity? l.target = some target → some x.2.2 ∈ keys sheets target := by
  simp only [fits, Bool.and_eq_true, decide_eq_true_eq, List.all_eq_true, Bool.or_eq_true,
    bne_iff_ne, ne_eq, ← imp_iff_not_or, Option.all_eq_true]

variable (hs : s.Sound)

include hs

theorem contents_of_entity {e : Entity} (he : e ∈ s.entities) :
    contents s sheets links e.name = Memory.contents s sheets e.name := by
  rw [contents, (Schema.entity?_eq_some hs.distinct _ e).2 ⟨he, rfl⟩]
  rfl

theorem entity?_table (j : s.Linkage) : s.entity? j.table = none :=
  (Keyed.find?_eq_none _).2 fun _ he => j.table_ne hs he

theorem contents_of_link (j : s.Linkage) :
    contents s sheets links j.table = (links.filter (·.1 = j.table)).map row := by
  rw [contents, entity?_table hs j]
  rfl

theorem exchanged_contents {e : Entity} (he : e ∈ s.entities) {sheets' : Sheets}
    {old new : List (Sql.Row cells)} (h : Exchanged e.name old new (Memory.contents s sheets)
      (Memory.contents s sheets')) :
    Exchanged e.name old new (contents s sheets links) (contents s sheets' links) := by
  obtain ⟨⟨others, hbefore, hafter⟩, hother⟩ := h
  refine ⟨⟨others, ?_, ?_⟩, fun other hne => ?_⟩
  · rwa [contents_of_entity hs he]
  · rwa [contents_of_entity hs he]
  · rw [contents, contents, hother other hne]

end Fitting

/-! ## Statements -/

section Statements

variable {m m' : LinkMemory s} {r : Except DriverError Reply × Memory s} {reply : Reply}
  {links : Links} {e : Entity}

theorem relay_keeps (m : LinkMemory s) (r : Except DriverError Reply × Memory s) :
    (m.relay r).2.memory.kept = m.memory.kept ∧ (m.relay r).2.kept = m.kept ∧
      ((m.relay r).1.isOk = false → (m.relay r).2 = m) := by
  rw [relay]
  split
  · exact ⟨rfl, rfl, fun _ => rfl⟩
  · split
    · exact ⟨rfl, rfl, fun hno => by cases hno⟩
    · exact ⟨rfl, rfl, fun _ => rfl⟩

theorem write_keeps (m : LinkMemory s) (links : Links) (reply : Reply) :
    (m.write links reply).2.memory.kept = m.memory.kept ∧ (m.write links reply).2.kept = m.kept ∧
      ((m.write links reply).1.isOk = false → (m.write links reply).2 = m) := by
  rw [write]
  split
  · exact ⟨rfl, rfl, fun hno => by cases hno⟩
  · exact ⟨rfl, rfl, fun _ => rfl⟩

theorem perm_selected (m : LinkMemory s) (q : Sql.Select) :
    ((arrange q (q.scopes m.rows)).map fun sc => q.outputs.map fun o => shown (sc.read o.column)).Perm
      ((q.rows m.rows).map fun row => row.map shown) := by
  rw [Sql.Select.rows, List.map_map]
  refine ((perm_arrange q _).map _).trans (.of_eq (List.map_congr_left fun sc _ => ?_))
  rw [Function.comp_apply, List.map_map]
  rfl

/-- What is written is not kept yet, and what is refused is not written. -/
theorem answer_keeps {r : Request} (hr : r.concernsRows = true) (ps : List (String × Sql.Bound))
    (m : LinkMemory s) : (answer r ps m).2.memory.kept = m.memory.kept ∧
      (answer r ps m).2.kept = m.kept ∧
      ((answer r ps m).1.isOk = false → (answer r ps m).2 = m) := by
  cases r with
  | select q => exact ⟨rfl, rfl, fun _ => rfl⟩
  | insert i =>
    rw [answer, insert]
    split
    · exact relay_keeps m _
    · split
      · exact write_keeps m _ _
      · exact ⟨rfl, rfl, fun _ => rfl⟩
  | update u => exact relay_keeps m _
  | delete x =>
    rw [answer, delete]
    split
    · exact relay_keeps m _
    · exact write_keeps m _ _
  | _ => cases hr

theorem relay_eq_ok (h : m.relay r = (.ok reply, m')) :
    r.1 = .ok reply ∧ m'.rows = contents s r.2.sheets.1 m.links := by
  rw [relay] at h
  split at h
  · cases h
  · split at h <;> cases h
    exact ⟨‹_›, rfl⟩

theorem write_eq_ok {reply' : Reply} (h : m.write links reply = (.ok reply', m')) :
    reply' = reply ∧ m'.rows = contents s m.memory.sheets.1 links := by
  rw [write] at h
  split at h <;> cases h
  exact ⟨rfl, rfl⟩

theorem relay_same (hok : r.1.isOk = true) (hsame : r.2.sheets.1 = m.memory.sheets.1) :
    (m.relay r).1.isOk = true ∧ (m.relay r).2.rows = m.rows := by
  obtain ⟨reply, hreply⟩ := Outcome.exists_ok hok
  rw [relay, hreply]
  dsimp only
  rw [dif_pos (hsame ▸ m.fit)]
  exact ⟨rfl, congrArg (contents s · m.links) hsame⟩

variable (hs : s.Sound) (he : e ∈ s.entities)

include hs he

theorem rows_of_entity (m : LinkMemory s) :
    m.rows e.name = Memory.contents s m.memory.sheets.1 e.name := contents_of_entity hs he

theorem insert_of_entity {i : Sql.Insert} (hi : i.table = e.name) :
    m.insert i = m.relay (m.memory.insert i) := by
  rw [insert, hi, (Schema.entity?_eq_some hs.distinct _ e).2 ⟨he, rfl⟩]
  rfl

theorem delete_of_entity (c : Sql.Condition) : m.delete { table := e.name, condition := c } =
    m.relay (m.memory.delete { table := e.name, condition := c }) := by
  rw [delete, (Schema.entity?_eq_some hs.distinct _ e).2 ⟨he, rfl⟩]
  rfl

/-- A test reaches the same records whether or not there are links. -/
theorem relay_changes {t : Sql.Test} {written : List (Sql.Row cells)}
    (h : m.memory.Changes e (.test t) written r) :
    ((∀ row ∈ m.rows e.name, (Sql.Condition.test t).reaches m.rows e.name row = false) →
      (m.relay r).1.isOk = true ∧ (m.relay r).2.rows = m.rows) ∧
    ∀ m' reply, m.relay r = (.ok reply, m') → (m'.rows e.name).Perm written ∧
      (∀ other ≠ e.name, m'.rows other = m.rows other) ∧
      reply.changed = (m.rows e.name).countP ((Sql.Condition.test t).reaches m.rows e.name) := by
  obtain ⟨hnone, heffect⟩ := h
  rw [rows_of_entity hs he]
  refine ⟨fun hno => ?_, fun m' reply hrelay => ?_⟩
  · obtain ⟨hok, hsame⟩ := hnone hno
    exact relay_same hok hsame
  · obtain ⟨hreply, hrows⟩ := relay_eq_ok hrelay
    obtain ⟨hperm, hothers, hchanged⟩ := heffect r.2 reply (Prod.ext hreply rfl)
    refine ⟨?_, fun other hne => ?_, hchanged⟩
    · rwa [hrows, contents_of_entity hs he]
    · rw [hrows, contents, hothers other hne, rows, contents]

end Statements

/-- The database keeps the rows of a schema. -/
def database (hs : s.Sound) {tables : Sql.Tables}
    (hbuilt : Sql.Tables.ofSchema .sqlite s = .ok tables)
    (hkeys : ∀ e ∈ s.entities, ∀ key, e.key? = some key → key.type = .bigint) :
    Database (server s) .sqlite s :=
  let b := Memory.database hs hbuilt hkeys
  { cells := cells
    shown := shown
    tables := tables
    rows := rows
    kept := fun m => contents s m.memory.kept.1 m.kept
    quiet := fun m => m.memory.inside = false
    live := fun _ => True
    built := hbuilt
    null := b.null
    returned := b.returned
    same := b.same
    typed := fun m e he row hrow column t ht => by
      rw [rows_of_entity hs he] at hrow
      exact b.typed m.memory e he row hrow column t ht
    keyed := fun m e he key hk => by
      rw [rows_of_entity hs he]
      exact b.keyed m.memory e he key hk
    settled := fun m h => ⟨by rw [m.memory.settled h, m.settled h]; rfl, trivial⟩
    connect := fun m h => ⟨m, rfl, h, rfl⟩
    setting := fun r ps m hr h => by
      rcases hr with rfl | rfl <;> exact ⟨rfl, h, rfl⟩
    begin := fun immediate ps m h => by
      have hanswer : (server s).answer (.begin immediate) ps m = (.ok {},
          ⟨⟨m.memory.sheets, m.memory.kept, true, nofun⟩, m.links, m.kept, m.fit, m.keptFit,
            nofun⟩) := if_neg (Bool.eq_false_iff.1 h)
      rw [hanswer]
      exact ⟨rfl, trivial, rfl, rfl⟩
    commit := fun m _ => ⟨_, rfl, rfl, rfl⟩
    rollback := fun m => ⟨rfl, rfl⟩
    kept_answer := fun r ps m hr => by
      obtain ⟨hmemory, hkept, -⟩ := answer_keeps hr ps m
      exact congrArg₂ (fun sheets links => contents s sheets.1 links) hmemory hkept
    live_answer := fun _ _ _ _ _ _ => trivial
    refused := fun r ps m hr h => congrArg rows ((answer_keeps hr ps m).2.2 h)
    looked := fun _ _ _ => rfl
    select := fun e he c hc outputs _ ps m _ => ⟨fun _ => rfl, fun reply hreply => by
      cases hreply
      exact perm_selected m _⟩
    insert := fun e he i hi htypes ps m m' reply _ h => by
      change m.insert i = _ at h
      rw [insert_of_entity hs he hi] at h
      obtain ⟨hreply, hrows⟩ := relay_eq_ok h
      obtain ⟨base, hex, hdefaults, hkey⟩ :=
        Memory.insert_effect hs he hi htypes (Prod.ext hreply rfl)
      refine ⟨base, ?_, hdefaults, fun key hk _ => hkey key hk⟩
      rw [hrows]
      exact exchanged_contents hs he hex
    update := fun e he c hc assignments htypes ps m _ => by
      obtain ⟨column, t, v, test, -, -, -, rfl⟩ := hc
      obtain ⟨hnone, heffect⟩ :=
        relay_changes hs he (Memory.update_effect hs he htypes (m := m.memory) (c := .test test))
      refine ⟨fun _ => hnone, fun m' reply h => ?_⟩
      obtain ⟨hperm, hothers, hchanged⟩ := heffect m' reply h
      rw [← rows_of_entity hs he m] at hperm
      exact ⟨hperm, hothers, hchanged⟩
    delete := fun e he c hc ps m _ => by
      obtain ⟨column, t, v, test, -, -, -, rfl⟩ := hc
      obtain ⟨hnone, heffect⟩ :=
        relay_changes hs he (Memory.delete_effect hs he (m := m.memory) (c := .test test))
      rw [← delete_of_entity hs he] at hnone heffect
      refine ⟨fun _ => hnone, fun m' reply h => ?_⟩
      obtain ⟨hperm, hothers, hchanged⟩ := heffect m' reply h
      rw [← rows_of_entity hs he m] at hperm
      exact ⟨hperm, hothers, hchanged⟩ }

/-! ## Pairs -/

theorem exists_int {v : Value} (h : LogicalType.bigint.admits v = true) (hn : v ≠ .null) :
    ∃ n, v = .int n := by
  cases LogicalType.admitted_of_admits h nofun with
  | null => exact absurd rfl hn
  | bigint n => exact ⟨n, rfl⟩

theorem same_int_iff (x y : Int) :
    cells.same .bigint (some (.int x)) (some (.int y)) = true ↔ x = y := by
  rw [Memory.same_int, Value.same_single rfl rfl]
  simp [Value.leveled, Value.isNan]

theorem row_inserted (table : String) (x y : Int) {j : s.Linkage} (ho : j.ownerKey.type = .bigint)
    (ht : j.targetKey.type = .bigint) :
    Assignment.write (j.adding (.int x) (.int y)).assignments (fun _ => none) = row (table, x, y) := by
  funext column
  rw [Schema.Linkage.adding, ho, ht, row]
  by_cases howner : "owner" = column
  · subst howner
    rfl
  · by_cases hhas : "has" = column
    · subst hhas
      rfl
    · rw [if_neg (Ne.symm howner), if_neg (Ne.symm hhas)]
      exact Sql.write_of_notMem _ (by simp [Ne.symm howner, Ne.symm hhas])

section Kept

variable (hs : s.Sound)

include hs

theorem exists_link {m : LinkMemory s} {j : s.Linkage} {r : Sql.Row cells}
    (hr : r ∈ m.rows j.table) : ∃ x ∈ m.links, x.1 = j.table ∧ row x = r := by
  rw [rows, contents_of_link hs] at hr
  obtain ⟨x, hx, rfl⟩ := List.mem_map.1 hr
  obtain ⟨hx, hj⟩ := List.mem_filter.1 hx
  exact ⟨x, hx, of_decide_eq_true hj, rfl⟩

theorem insert_link {m m' : LinkMemory s} {j : s.Linkage} {x y : Int} {reply : Reply}
    (ho : j.ownerKey.type = .bigint) (ht : j.targetKey.type = .bigint)
    (h : m.insert (j.adding (.int x) (.int y)) = (.ok reply, m')) :
    Exchanged j.table [] [Assignment.write (j.adding (.int x) (.int y)).assignments fun _ => none]
      m.rows m'.rows := by
  rw [insert, show (j.adding (.int x) (.int y)).table = j.table from rfl, entity?_table hs] at h
  obtain ⟨-, hrows⟩ := write_eq_ok (m := m) h
  rw [row_inserted j.table x y ho ht, hrows]
  refine ⟨⟨m.rows j.table, .refl _, ?_⟩, fun other hne => ?_⟩
  · rw [rows, contents_of_link hs, contents_of_link hs, List.filter_append, List.map_append]
    simp
  · rw [rows, contents, contents, List.filter_append, List.filter_singleton]
    simp [Ne.symm hne]

theorem delete_link {m m' : LinkMemory s} {j : s.Linkage} {c : Sql.Condition} {reply : Reply}
    (h : m.delete { table := j.table, condition := c } = (.ok reply, m')) :
    m'.rows j.table = (m.rows j.table).filter (fun r => !c.reaches m.rows j.table r) ∧
      (∀ other ≠ j.table, m'.rows other = m.rows other) ∧
      reply.changed = (m.rows j.table).countP (c.reaches m.rows j.table) := by
  rw [delete, show ({ table := j.table, condition := c } : Sql.Delete).table = j.table from rfl,
    entity?_table hs] at h
  obtain ⟨rfl, hrows⟩ := write_eq_ok (m := m) h
  rw [hrows]
  refine ⟨?_, fun other hne => ?_, ?_⟩
  · rw [contents_of_link hs, rows, contents_of_link hs, List.filter_map, List.filter_filter,
      List.filter_filter]
    refine congrArg (List.map row) (List.filter_congr fun x _ => ?_)
    by_cases hx : x.1 = j.table <;> simp [reaches, rows, hx]
  · rw [rows, contents, contents, List.filter_filter]
    refine congrArg (ite _ _) (congrArg (List.map row) (List.filter_congr fun x _ => ?_))
    by_cases hx : x.1 = other <;> simp [reaches, hx, hne]
  · rw [rows, contents_of_link hs, List.countP_map, List.countP_filter]
    refine congrArg Nat.cast (List.countP_congr fun x _ => ?_)
    simp [reaches, rows, and_comm]

theorem keyed_links (m : LinkMemory s) (j : s.Linkage) : (m.rows j.table).Pairwise fun a b =>
    ¬(cells.same .bigint (a "owner") (b "owner") = true ∧
      cells.same .bigint (a "has") (b "has") = true) := by
  have hnodup : (m.links.filter (·.1 = j.table)).Nodup := (fits_iff.1 m.fit).1.filter _
  rw [rows, contents_of_link hs, List.pairwise_map]
  refine List.Pairwise.imp_of_mem ?_ hnodup
  rintro ⟨t, x, y⟩ ⟨t', x', y'⟩ hx hx' hne ⟨hsame, hsame'⟩
  obtain rfl := (same_int_iff x x').1 hsame
  obtain rfl := (same_int_iff y y').1 hsame'
  have ht : t = j.table := of_decide_eq_true (List.mem_filter.1 hx).2
  have ht' : t' = j.table := of_decide_eq_true (List.mem_filter.1 hx').2
  exact hne (by rw [ht, ht'])

variable (hkeys : ∀ e ∈ s.entities, ∀ key, e.key? = some key → key.type = .bigint)

include hkeys

/-- There is a record of each key. -/
theorem exists_record (m : LinkMemory s) {e : Entity} (he : e ∈ s.entities) {key : Field}
    (hk : e.key? = some key) {n : Int} (hn : some n ∈ keys m.memory.sheets.1 e) :
    key.type.admits (.int n) = true ∧ ∃ r ∈ m.rows e.name, r key.name = some (.int n) := by
  obtain ⟨es, hes, hnumber⟩ := List.mem_map.1 hn
  have hsound := hs.entities e he
  have htype := hkeys e he key hk
  have hrow := Memory.row_key (s := s) hsound hk htype hnumber
  refine ⟨?_, Memory.row s e es, ?_, hrow⟩
  · rcases Memory.typed_row ((Memory.keeps_iff.1 m.memory.sheets.2 e he).1 es hes).1
      (hsound.columnType_key hk) with hnone | ⟨v, hv, hliteral⟩
    · rw [hrow] at hnone
      cases hnone
    · rw [htype] at hv hliteral ⊢
      rw [hrow] at hliteral
      obtain ⟨n', rfl⟩ := exists_int hv fun hnull => by rw [hnull] at hliteral; cases hliteral
      cases hliteral
      exact hv
  · rw [rows_of_entity hs he, Memory.contents_of_entity hs he]
    exact List.mem_map_of_mem hes

theorem exists_ends (m : LinkMemory s) (j : s.Linkage) {x : String × Int × Int} (hx : x ∈ m.links)
    (hj : x.1 = j.table) : j.Admits (.int x.2.1) (.int x.2.2) ∧
      ∃ r ∈ m.rows j.target.name, r j.targetKey.name = some (.int x.2.2) := by
  obtain ⟨howner, htarget⟩ := (fits_iff.1 m.fit).2 j.owner j.owner_mem j.link j.link_mem x hx hj
  obtain ⟨hadmits, -⟩ := exists_record hs hkeys m j.owner_mem j.ownerKey_eq howner
  obtain ⟨hadmits', hrow⟩ := exists_record hs hkeys m j.target_mem j.targetKey_eq
    (htarget j.target (j.entity?_target hs))
  exact ⟨⟨hadmits, hadmits', nofun, nofun⟩, hrow⟩

theorem keepsLinks {tables : Sql.Tables} (hbuilt : Sql.Tables.ofSchema .sqlite s = .ok tables) :
    (database hs hbuilt hkeys).KeepsLinks := by
  have ho := fun j : s.Linkage => hkeys j.owner j.owner_mem j.ownerKey j.ownerKey_eq
  have ht := fun j : s.Linkage => hkeys j.target j.target_mem j.targetKey j.targetKey_eq
  constructor
  case typed =>
    intro m j r hr
    obtain ⟨x, hx, hj, rfl⟩ := exists_link hs hr
    refine ⟨_, _, (exists_ends hs hkeys m j hx hj).1, ?_, ?_⟩
    · rw [ho]
      rfl
    · rw [ht]
      rfl
  case keyed =>
    intro m j
    rw [ho, ht]
    exact keyed_links hs m j
  case referring =>
    intro m j r hr
    obtain ⟨x, hx, hj, rfl⟩ := exists_link hs hr
    obtain ⟨-, r, hr, hkey⟩ := exists_ends hs hkeys m j hx hj
    refine ⟨r, hr, ?_⟩
    rw [hkey, ht]
    exact (same_int_iff _ _).2 rfl
  case look =>
    intro j v u _ ps m reply _ hreply
    cases hreply
    exact perm_selected m _
  case insert =>
    intro j v u h ps m m' reply _ hanswer
    obtain ⟨x, rfl⟩ := exists_int (ho j ▸ h.owner) h.owner_ne
    obtain ⟨y, rfl⟩ := exists_int (ht j ▸ h.target) h.target_ne
    exact ⟨_, insert_link hs (ho j) (ht j) hanswer⟩
  case delete =>
    intro j v u _ ps m m' reply _ hanswer
    obtain ⟨hafter, hothers, hchanged⟩ := delete_link hs hanswer
    exact ⟨.of_eq hafter, hothers, hchanged⟩
  case follow =>
    intro j v _ _ ps m reply _ hreply
    cases hreply
    have hordering : (Query.following j v).ordering = [⟨j.targetColumn, none⟩] := rfl
    exact ⟨_, perm_arrange _ _, pairwise_arrange hordering _ _, rfl⟩

end Kept

end LinkMemory

end SchemaLedger
