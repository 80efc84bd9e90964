import Mathlib.Data.List.Nodup
import SchemaLedger.Sql.Select

set_option autoImplicit false

/-!
# Scopes

What a query and each of its subqueries have in scope, and the columns that they name. A column is
named by the correlation name of its occurrence, so it denotes what it was meant for wherever the
names in scope are distinct. Correlation names are glued from chains with two underscores; chains of
names that have no such gap themselves can be told apart.
-/
namespace SchemaLedger.Sql

/-! ## Columns and links -/

def Operand.columns : Operand → List ColumnRef
  | .column c => [c]
  | _ => []

def Test.columns : Test → List ColumnRef
  | .constant _ => []
  | .compare _ left right => left :: right.columns
  | .isNull _ c => [c]
  | .oneOf _ c _ => [c]

theorem Test.columns_negated (t : Test) : t.negated.columns = t.columns := by
  cases t <;> rfl

def Join.columns (j : Join) : List ColumnRef := [j.left, j.right]

namespace LinkedRow

def sources (r : LinkedRow) : List Source := r.link :: r.target.toList.map (·.source)

def columns (r : LinkedRow) : List ColumnRef :=
  r.linkOwner :: r.owner :: r.test.columns ++ r.target.toList.flatMap Join.columns

theorem mem_columns {r : LinkedRow} {c : ColumnRef} :
    c ∈ r.columns ↔ c = r.linkOwner ∨ c = r.owner ∨ c ∈ r.test.columns ∨
      ∃ j ∈ r.target, c = j.left ∨ c = j.right := by
  simp [columns, Join.columns]

end LinkedRow

namespace Condition

variable {α : Type} (f : Test → List α) (g : LinkedRow → List α)

mutual

/-- What the tests and the links of a condition have. -/
def collect (f : Test → List α) (g : LinkedRow → List α) : Condition → List α
  | .test t => f t
  | .settled _ => []
  | .linked row => g row
  | .list _ items => collectAll f g items
  | .negation c => collect f g c

def collectAll (f : Test → List α) (g : LinkedRow → List α) : List Condition → List α
  | [] => []
  | c :: rest => collect f g c ++ collectAll f g rest

end

theorem collectAll_eq (cs : List Condition) : collectAll f g cs = cs.flatMap (collect f g) := by
  induction cs with
  | nil => rfl
  | cons c rest ih => rw [collectAll, ih, List.flatMap_cons]

theorem flatMap_collect_operandsOf (k : Connective) (c : Condition) :
    (operandsOf k c).flatMap (collect f g) = collect f g c := by
  cases c with
  | list k' items =>
    simp only [operandsOf]
    split
    · rw [collect, collectAll_eq]
    · exact List.flatMap_singleton _ _
  | _ => exact List.flatMap_singleton _ _

/-- A connection has nothing that its operands do not have. -/
theorem mem_of_mem_collect_connect {k : Connective} {cs : List Condition} {x : α}
    (h : x ∈ collect f g (connect k cs)) : ∃ c ∈ cs, x ∈ collect f g c := by
  have hkept : ∀ c ∈ cs.filter (·.constant? ≠ some k.neutral), c ∈ cs :=
    fun c hc => (List.mem_filter.1 hc).1
  unfold connect at h
  split at h
  · cases h
  · revert h hkept
    generalize cs.filter (·.constant? ≠ some k.neutral) = kept
    intro hkept h
    match kept, cs with
    | [], [] => cases h
    | [], _ :: _ => cases h
    | [c], _ => exact ⟨c, hkept c List.mem_cons_self, h⟩
    | c :: c' :: rest, _ =>
      rw [collect, collectAll_eq, List.flatMap_assoc] at h
      simp only [flatMap_collect_operandsOf] at h
      obtain ⟨c, hc, hx⟩ := List.mem_flatMap.1 h
      exact ⟨c, hkept c hc, hx⟩

variable {f g}

theorem collect_negated (hf : ∀ t, f t.negated = f t) (hb : ∀ b, f (.constant b) = [])
    (c : Condition) : collect f g c.negated = collect f g c := by
  cases c with
  | test t => exact hf t
  | settled b => exact hb _
  | _ => rfl

/-- The columns of a condition outside of its links. -/
def columns (c : Condition) : List ColumnRef := c.collect Test.columns fun _ => []

def links (c : Condition) : List LinkedRow := c.collect (fun _ => []) fun r => [r]

theorem columns_negated (c : Condition) : c.negated.columns = c.columns :=
  collect_negated Test.columns_negated (fun _ => rfl) c

theorem links_negated (c : Condition) : c.negated.links = c.links :=
  collect_negated (fun _ => rfl) (fun _ => rfl) c

end Condition

/-! ## Names -/

namespace Occurrence

theorem toList_name_joined (chain : List String) :
    (joined chain).name.toList = 'j' :: '_' :: (chainName chain).toList := by
  simp [name, correlation?]

theorem toList_name_link (chain : List String) (n : Nat) :
    (link chain n).name.toList = 'm' :: '_' :: (chainName chain ++ "_" ++ toString n).toList := by
  change ("m_" ++ chainName chain ++ "_" ++ toString n).toList = _
  simp

theorem toList_name_linked (chain : List String) (n : Nat) :
    (linked chain n).name.toList = 't' :: '_' :: (chainName chain ++ "_" ++ toString n).toList := by
  change ("t_" ++ chainName chain ++ "_" ++ toString n).toList = _
  simp

theorem name_joined_inj {a b : List String} :
    (joined a).name = (joined b).name ↔ chainName a = chainName b := by
  simp only [← String.toList_inj, toList_name_joined, List.cons.injEq, true_and]

/-- The occurrences that a SELECT may have side by side: one table as itself, some chains, and no
more than one link with what it leads to. -/
structure Framed (table : String) (chains : List (List String)) (os : List Occurrence) : Prop where
  nodup : os.Nodup
  table : ∀ name, .table name ∈ os ↔ name = table
  joined : ∀ chain, .joined chain ∈ os ↔ chain ∈ chains
  link : ∀ a n b m, .link a n ∈ os → .link b m ∈ os → link a n = link b m
  linked : ∀ a n b m, .linked a n ∈ os → .linked b m ∈ os → linked a n = linked b m

theorem framed {table : String} {chains : List (List String)} (hd : chains.Nodup)
    {inner : List Occurrence}
    (h : inner = [] ∨ ∃ chain n, inner = [.link chain n] ∨
      inner = [.link chain n, .linked chain n]) :
    Framed table chains (inner ++ .table table :: chains.map .joined) := by
  have hjoined : (chains.map Occurrence.joined).Nodup := hd.map fun _ _ => joined.inj
  rcases h with rfl | ⟨chain, n, rfl | rfl⟩
  · exact ⟨by simpa using hjoined, by simp, by simp, by simp, by simp⟩
  · exact ⟨by simpa using hjoined, by simp, by simp, by simp +contextual, by simp⟩
  · exact ⟨by simpa using hjoined, by simp, by simp, by simp +contextual, by simp +contextual⟩

/-- Names of a SELECT can only clash where two chains are glued to one name, or where a correlation
name is the name of the table. -/
theorem nodup_names_iff {table : String} {chains : List (List String)} {os : List Occurrence}
    (h : Framed table chains os) :
    (os.map name).Nodup ↔ (∀ a ∈ chains, ∀ b ∈ chains, chainName a = chainName b → a = b) ∧
      ∀ o ∈ os, o.correlation? ≠ some table := by
  rw [List.nodup_map_iff_inj_on h.nodup]
  constructor
  · refine fun hinj => ⟨fun a ha b hb heq => ?_, fun o ho hcorrelation => ?_⟩
    · exact joined.inj
        (hinj _ ((h.joined a).2 ha) _ ((h.joined b).2 hb) (name_joined_inj.2 heq))
    · have hname : o.name = (Occurrence.table table).name := by
        cases o with
        | table => cases hcorrelation
        | _ => exact Option.some.inj hcorrelation
      rw [hinj o ho _ ((h.table table).2 rfl) hname] at hcorrelation
      cases hcorrelation
  · rintro ⟨hglue, halias⟩ x hx y hy hname
    -- Correlation names of different kinds differ in their first letter.
    have hclash : ∀ n o, .table n ∈ os → o ∈ os → o.correlation? ≠ some n :=
      fun n o hn ho => (h.table n).1 hn ▸ halias o ho
    have hchars := congrArg String.toList hname
    cases x with
    | table n =>
      cases y with
      | table m => exact congrArg Occurrence.table hname
      | _ => exact absurd (congrArg some hname.symm) (hclash n _ hx hy)
    | joined a =>
      cases y with
      | table m => exact absurd (congrArg some hname) (hclash m _ hy hx)
      | joined b =>
        exact congrArg joined
          (hglue a ((h.joined a).1 hx) b ((h.joined b).1 hy) (name_joined_inj.1 hname))
      | link b m => simp [toList_name_joined, toList_name_link] at hchars
      | linked b m => simp [toList_name_joined, toList_name_linked] at hchars
    | link a n =>
      cases y with
      | table m => exact absurd (congrArg some hname) (hclash m _ hy hx)
      | joined b => simp [toList_name_joined, toList_name_link] at hchars
      | link b m => exact h.link a n b m hx hy
      | linked b m => simp [toList_name_link, toList_name_linked] at hchars
    | linked a n =>
      cases y with
      | table m => exact absurd (congrArg some hname) (hclash m _ hy hx)
      | joined b => simp [toList_name_joined, toList_name_linked] at hchars
      | link b m => simp [toList_name_link, toList_name_linked] at hchars
      | linked b m => exact h.linked a n b m hx hy

/-! ### Glued chains -/

/-- The names of a chain that can be told from their glued text: none of them starts with an
underscore, and none has two in a row. -/
def Separable (chain : List (List Char)) : Prop :=
  ∀ name ∈ chain, name.head? ≠ some '_' ∧ ¬ ['_', '_'] <:+: name

def glue (chain : List (List Char)) : List Char := List.intercalate ['_', '_'] chain

theorem glue_cons_cons (x y : List Char) (rest : List (List Char)) :
    glue (x :: y :: rest) = x ++ '_' :: '_' :: glue (y :: rest) := by
  simp [glue]

theorem glue_singleton (x : List Char) : glue [x] = x := by simp [glue]

theorem Separable.tail {x : List Char} {rest : List (List Char)} (h : Separable (x :: rest)) :
    Separable rest := fun name hname => h name (List.mem_cons_of_mem x hname)

/-- No glued text is another one with one more underscore in front. -/
theorem glue_ne_cons (a b : List (List Char)) (ha : Separable a) (hb : Separable b) :
    glue a ≠ '_' :: glue b := by
  intro h
  match a with
  | [] => cases h
  | [x] =>
    rw [glue_singleton] at h
    exact (ha x List.mem_cons_self).1 (by rw [h]; rfl)
  | (c :: x) :: y :: rest =>
    rw [glue_cons_cons, List.cons_append] at h
    exact (ha (c :: x) List.mem_cons_self).1 (congrArg some (List.cons.inj h).1)
  | [] :: y :: rest =>
    -- Without its first name, the first text is one underscore longer than the second one.
    rw [glue_cons_cons, List.nil_append] at h
    exact glue_ne_cons b (y :: rest) hb ha.tail (List.cons.inj h).2.symm
termination_by a.length + b.length

/-- What a name has in front of a gap that stands at its end elsewhere. -/
theorem eq_nil_of_gap {x z : List Char} {a b : List (List Char)} (ha : Separable a)
    (hb : Separable b) (hx : ¬ ['_', '_'] <:+: x ++ z)
    (h : '_' :: '_' :: glue a = z ++ '_' :: '_' :: glue b) : z = [] := by
  match z with
  | [] => rfl
  | [c] =>
    obtain ⟨-, htail⟩ := List.cons.inj h
    exact absurd (List.cons.inj htail).2 (glue_ne_cons a b ha hb)
  | c :: d :: z =>
    obtain ⟨rfl, htail⟩ := List.cons.inj h
    obtain ⟨rfl, -⟩ := List.cons.inj htail
    exact absurd ⟨x, z, by simp⟩ hx

theorem glue_inj {a b : List (List Char)} (ha : Separable a) (hb : Separable b) (hane : a ≠ [])
    (hbne : b ≠ []) (h : glue a = glue b) : a = b := by
  induction a generalizing b with
  | nil => exact absurd rfl hane
  | cons x as ih =>
    obtain ⟨y, bs, rfl⟩ := List.exists_cons_of_ne_nil hbne
    have hx := (ha x List.mem_cons_self).2
    have hy := (hb y List.mem_cons_self).2
    match as, bs with
    | [], [] => rw [glue_singleton, glue_singleton] at h; rw [h]
    | [], y' :: bs =>
      rw [glue_singleton, glue_cons_cons] at h
      exact absurd ⟨y, glue (y' :: bs), by simp [h]⟩ hx
    | x' :: as, [] =>
      rw [glue_singleton, glue_cons_cons] at h
      exact absurd ⟨x, glue (x' :: as), by simp [← h]⟩ hy
    | x' :: as, y' :: bs =>
      rw [glue_cons_cons, glue_cons_cons] at h
      have hxy : x = y := by
        rcases List.append_eq_append_iff.1 h with ⟨z, rfl, hgap⟩ | ⟨z, rfl, hgap⟩
        · rw [eq_nil_of_gap ha.tail hb.tail hy hgap, List.append_nil]
        · rw [eq_nil_of_gap hb.tail ha.tail hx hgap, List.append_nil]
      subst hxy
      have hrest := List.append_cancel_left h
      rw [ih ha.tail hb.tail (List.cons_ne_nil _ _) (List.cons_ne_nil _ _) (by simpa using hrest)]

theorem toList_chainName (chain : List String) :
    (chainName chain).toList = glue (chain.map String.toList) := by
  rw [chainName, String.toList_intercalate]
  rfl

/-- Chains whose names have no gap in them are glued to different names. -/
theorem chainName_inj {a b : List String} (ha : Separable (a.map String.toList))
    (hb : Separable (b.map String.toList)) (hane : a ≠ []) (hbne : b ≠ [])
    (h : chainName a = chainName b) : a = b := by
  have hglue := congrArg String.toList h
  rw [toList_chainName, toList_chainName] at hglue
  have hlists := glue_inj ha hb (by simpa using hane) (by simpa using hbne) hglue
  exact List.map_injective_iff.2 (fun _ _ => String.toList_inj.1) hlists

end Occurrence

/-! ## Frames -/

/-- What a SELECT has in scope, and the columns that it names. -/
structure Frame where
  sources : List Source
  columns : List ColumnRef

namespace Frame

/-- No name stands for two sources. -/
def Distinct (f : Frame) : Prop := (f.sources.map (·.occurrence.name)).Nodup

/-- Each column is named by its own source, and by no other one. -/
def Denotes (f : Frame) : Prop :=
  ∀ c ∈ f.columns, ∃ x ∈ f.sources, x.occurrence = c.source ∧
    ∀ y ∈ f.sources, y.occurrence.name = c.source.name → y = x

theorem denotes_of_distinct {f : Frame} (h : f.Distinct)
    (hc : ∀ c ∈ f.columns, ∃ x ∈ f.sources, x.occurrence = c.source) : f.Denotes := by
  intro c hin
  obtain ⟨x, hx, heq⟩ := hc c hin
  refine ⟨x, hx, heq, fun y hy hname => ?_⟩
  exact List.inj_on_of_nodup_map h hy hx (hname.trans (congrArg Occurrence.name heq).symm)

end Frame

namespace Select

def sources (q : Select) : List Source := q.source :: q.joins.map (·.source)

def links (q : Select) : List LinkedRow := q.condition.toList.flatMap Condition.links

def columns (q : Select) : List ColumnRef :=
  q.outputs.map (·.column) ++ q.joins.flatMap Join.columns ++
    q.condition.toList.flatMap Condition.columns ++ q.ordering.map (·.column)

/-- The query itself, and a subquery for each link, which sees the sources of the query too. -/
def frames (q : Select) : List Frame :=
  ⟨q.sources, q.columns⟩ :: q.links.map fun r => ⟨r.sources ++ q.sources, r.columns⟩

end Select

end SchemaLedger.Sql
