import SchemaLedger.Migration.Diff
import SchemaLedger.Proofs.Sql.Layout

set_option autoImplicit false

/-!
# What a step changes

The facts of a catalog that a step leaves alone, those that it takes away and those that it brings. The
catalogs before and after the step have the first in common, so its statements have to exchange the
second for the third.
-/
namespace SchemaLedger

/-- The column that a declaration stands for. -/
def Declaration.column? : Declaration → Option (String × String)
  | .field n f => some (n, f.name)
  | .relationship n (.single r) => some (n, r.name)
  | _ => none

theorem Declaration.column?_cases {x : Declaration} {n c : String} (h : x.column? = some (n, c)) :
    (∃ f, x = .field n f ∧ f.name = c) ∨ ∃ r, x = .relationship n (.single r) ∧ r.name = c := by
  cases x with
  | entity _ => cases h
  | field m f =>
    obtain ⟨rfl, rfl⟩ := Prod.mk.inj (Option.some.inj h)
    exact .inl ⟨f, rfl, rfl⟩
  | relationship m r =>
    cases r with
    | single r =>
      obtain ⟨rfl, rfl⟩ := Prod.mk.inj (Option.some.inj h)
      exact .inr ⟨r, rfl, rfl⟩
    | many l => cases h

theorem Schema.Declares.of_column? {s : Schema} {x : Declaration} (hx : s.Declares x) {n c : String}
    (hxc : x.column? = some (n, c)) : s.Declares (.entity n) := by
  have howner := hx.owner
  rcases Declaration.column?_cases hxc with ⟨g, rfl, -⟩ | ⟨r, rfl, -⟩ <;> exact howner

/-- No two declarations stand for the same column. -/
theorem Schema.Sound.eq_of_column? {s : Schema} (hs : s.Sound) {x y : Declaration} {n c : String}
    (hx : s.Declares x) (hy : s.Declares y) (hxc : x.column? = some (n, c))
    (hyc : y.column? = some (n, c)) : x = y := by
  have hapart : ∀ {f r}, s.Declares (.field n f) → s.Declares (.relationship n (.single r)) →
      f.name ≠ r.name := by
    rintro f r ⟨e, he, rfl, hf⟩ hr
    rw [Schema.declares_relationship hs.distinct he] at hr
    exact (hs.entities e he).apart hf hr
  rcases Declaration.column?_cases hxc with ⟨f, rfl, hf⟩ | ⟨r, rfl, hr⟩
  · rcases Declaration.column?_cases hyc with ⟨g, rfl, hg⟩ | ⟨q, rfl, hq⟩
    · rw [hs.field_unique hx hy (hf.trans hg.symm)]
    · exact absurd (hf.trans hq.symm) (hapart hx hy)
  · rcases Declaration.column?_cases hyc with ⟨g, rfl, hg⟩ | ⟨q, rfl, hq⟩
    · exact absurd (hg.trans hr.symm) (hapart hy hx)
    · have heq := hs.relationship_unique hx hy (hr.trans hq.symm)
      rw [heq]

namespace Step

/-- What a step of a plan finds in the schema it is applied to. -/
def Apt (s : Schema) : Step → Prop
  | .createEntity e => e.links = []
  | .dropEntity e => e.links = [] ∧ ∀ l, ¬ s.Declares (.relationship e.name (.many l))
  | .removeField n f => s.Declares (.field n f)
  | .alterField n old new =>
    s.Declares (.field n old) ∧ old.name = new.name ∧ Diff.keepsIdentity old new = true
  | .removeRelationship n r => s.Declares (.relationship n r)
  | .alterReference n old new =>
    s.Declares (.relationship n (.single old)) ∧ old.name = new.name ∧ old.target = new.target
  | _ => True

/-- No step changes the name or the type of a key. -/
theorem key_of_apply {s t : Schema} {step : Step} (hs : s.Sound) (ht : t.Sound)
    (hapt : step.Apt s) (h : step.apply s = .ok t) {n : String} {k l : Field} (hk : s.Key n k)
    (hl : t.Key n l) : k.name = l.name ∧ k.type = l.type := by
  have hdecl := declares_apply hs.distinct h
  rcases (hdecl _).1 hl.1 with hadd | ⟨hls, -⟩
  · cases step with
    | createEntity e =>
      obtain ⟨hnew, -⟩ := (apply_createEntity s t e).1 h
      exact absurd (hadd.1 ▸ hk.1.owner) hnew
    | addField m f =>
      cases hadd
      have hkt := (hdecl (.field n k)).2 (.inr ⟨hk.1, id⟩)
      rw [ht.key_unique hkt hl.1 hk.2 hl.2]
      exact ⟨rfl, rfl⟩
    | alterField m old new =>
      cases hadd
      obtain ⟨hold, hname, hkeeps⟩ := hapt
      simp only [Diff.keepsIdentity, Bool.and_eq_true, decide_eq_true_eq] at hkeeps
      obtain ⟨⟨hp, -⟩, htype⟩ := hkeeps
      obtain rfl := hs.key_unique hold hk.1 (hp.trans hl.2) hk.2
      exact ⟨hname, by simpa [hl.2] using htype⟩
    | addRelationship _ _ | alterReference _ _ _ => cases hadd
    | _ => exact hadd.elim
  · rw [hs.key_unique hk.1 hls hk.2 hl.2]
    exact ⟨rfl, rfl⟩

/-- The member that a change takes away, and the one that it brings. -/
def removed? : Step → Option Declaration
  | .removeField n f => some (.field n f)
  | .alterField n old _ => some (.field n old)
  | .removeRelationship n r => some (.relationship n r)
  | .alterReference n old _ => some (.relationship n (.single old))
  | _ => none

def added? : Step → Option Declaration
  | .addField n f => some (.field n f)
  | .alterField n _ new => some (.field n new)
  | .addRelationship n r => some (.relationship n r)
  | .alterReference n _ new => some (.relationship n (.single new))
  | _ => none

theorem adds_iff {step : Step} (h : step.isChange = true) (x : Declaration) :
    step.Adds x ↔ step.added? = some x := by
  cases step with
  | createEntity _ | dropEntity _ => cases h
  | removeField _ _ | removeRelationship _ _ => exact iff_of_false id nofun
  | addField _ _ | alterField _ _ _ | addRelationship _ _ | alterReference _ _ _ =>
    exact eq_comm.trans Option.some_inj.symm

theorem removes_iff {s : Schema} {step : Step} (hs : s.Sound) (h : step.isChange = true)
    (hapt : step.Apt s) {x : Declaration} (hx : s.Declares x) :
    step.Removes x ↔ step.removed? = some x := by
  have hfield : ∀ {n f}, s.Declares (.field n f) →
      ((∃ g, x = .field n g ∧ g.name = f.name) ↔ some (Declaration.field n f) = some x) := by
    intro n f hf
    constructor
    · rintro ⟨g, rfl, hg⟩
      rw [hs.field_unique hx hf hg]
    · rintro ⟨⟩
      exact ⟨f, rfl, rfl⟩
  have hrelationship : ∀ {n r}, s.Declares (.relationship n r) →
      ((∃ q, x = .relationship n q ∧ q.name = r.name) ↔
        some (Declaration.relationship n r) = some x) := by
    intro n r hr
    constructor
    · rintro ⟨q, rfl, hq⟩
      rw [hs.relationship_unique hx hr hq]
    · rintro ⟨⟩
      exact ⟨r, rfl, rfl⟩
  cases step with
  | createEntity _ | dropEntity _ => cases h
  | addField _ _ | addRelationship _ _ => exact iff_of_false id nofun
  | removeField n f =>
    refine Iff.trans ?_ (hfield hapt)
    cases x <;> simp [Removes]
  | alterField n old new =>
    refine Iff.trans ?_ (hfield hapt.1)
    cases x <;> simp [Removes]
  | removeRelationship n r =>
    refine Iff.trans ?_ (hrelationship hapt)
    cases x <;> simp [Removes]
  | alterReference n old new =>
    refine Iff.trans ?_ (hrelationship hapt.1)
    cases x <;> simp [Removes, Relationship.name]

end Step

namespace Sql

/-- Whether a fact is about column `c` of table `n` alone. -/
def Fact.About (n c : String) : Fact → Prop
  | .column t x _ _ | .unique t _ x | .foreignKey t x _ _ => t = n ∧ x = c
  | _ => False

theorem Lays.about {d : Dialect} {s : Schema} {x : Declaration} {f : Fact} (h : Lays d s x f)
    {n c : String} (hx : x.column? = some (n, c)) : f.About n c := by
  cases h with
  | field _ _ | unique _ _ | reference _ | target _ =>
    obtain ⟨rfl, rfl⟩ := Prod.mk.inj (Option.some.inj hx)
    exact ⟨rfl, rfl⟩
  | _ => cases hx

/-- A fact about a column of an entity comes from the declaration of that column. -/
theorem Lays.column?_of_about {d : Dialect} {s : Schema} (hs : s.Sound) {x : Declaration} {f : Fact}
    (hx : s.Declares x) (h : Lays d s x f) {n c : String} (hn : s.Declares (.entity n))
    (hf : f.About n c) : x.column? = some (n, c) := by
  have howner : x.table = n := by
    rw [← h.owner]
    cases f with
    | column _ _ _ _ | unique _ _ _ | foreignKey _ _ _ _ => exact hf.1
    | _ => cases hf
  cases h with
  | field _ _ | unique _ _ | reference _ | target _ =>
    obtain ⟨rfl, rfl⟩ := hf
    rfl
  | table _ | key _ => cases hf
  | @link m l k k' f hk hm hmem =>
    obtain rfl : joinEntityName m l.name = n := howner
    exact absurd hn (hs.unshadowed m l hx)

/-- The facts of what a step leaves alone, of what it removes, and of what it adds. -/
def staying (d : Dialect) (s : Schema) (step : Step) : Catalog :=
  {f | ∃ x, s.Declares x ∧ ¬ step.Removes x ∧ Lays d s x f}

def leaving (d : Dialect) (s : Schema) (step : Step) : Catalog :=
  {f | ∃ x, s.Declares x ∧ step.Removes x ∧ Lays d s x f}

def arriving (d : Dialect) (t : Schema) (step : Step) : Catalog :=
  {f | ∃ x, step.Adds x ∧ Lays d t x f}

variable {d : Dialect} {s t : Schema} {step : Step} {c c' : Catalog}

theorem catalog_before (hs : s.Sound) (hc : catalog d s = .ok c) (step : Step) :
    c = staying d s step ∪ leaving d s step := by
  ext f
  rw [mem_catalog_iff hs hc]
  constructor
  · rintro ⟨x, hx, hlays⟩
    by_cases hrem : step.Removes x
    · exact .inr ⟨x, hx, hrem, hlays⟩
    · exact .inl ⟨x, hx, hrem, hlays⟩
  · rintro (⟨x, hx, -, hlays⟩ | ⟨x, hx, -, hlays⟩) <;> exact ⟨x, hx, hlays⟩

theorem catalog_after (hs : s.Sound) (ht : t.Sound) (hapt : step.Apt s)
    (happly : step.apply s = .ok t) (hc : catalog d t = .ok c') :
    c' = staying d s step ∪ arriving d t step := by
  have hdecl := Step.declares_apply hs.distinct happly
  have hkeys := fun n k l => Step.key_of_apply hs ht hapt happly (n := n) (k := k) (l := l)
  ext f
  rw [mem_catalog_iff ht hc]
  constructor
  · rintro ⟨x, hx, hlays⟩
    rcases (hdecl x).1 hx with hadd | ⟨hxs, hrem⟩
    · exact .inr ⟨x, hadd, hlays⟩
    · exact .inl ⟨x, hxs, hrem, hlays.congr hs hxs fun n k l hk hl =>
        ⟨(hkeys n l k hl hk).1.symm, (hkeys n l k hl hk).2.symm⟩⟩
  · rintro (⟨x, hxs, hrem, hlays⟩ | ⟨x, hadd, hlays⟩)
    · have hx := (hdecl x).2 (.inr ⟨hxs, hrem⟩)
      exact ⟨x, hx, hlays.congr ht hx hkeys⟩
    · exact ⟨x, (hdecl x).2 (.inl hadd), hlays⟩

/-! ## Changes of a member -/

/-- The facts of one declaration. -/
def laid (d : Dialect) (s : Schema) (x : Declaration) : Catalog := {f | Lays d s x f}

def uniqueFacts (n : String) (f : Field) : Catalog :=
  if f.unique && !f.primaryKey then {.unique n (uniqueConstraintName n f.name) f.name} else ∅

theorem laid_field (d : Dialect) (s : Schema) (n : String) (f : Field) :
    laid d s (.field n f) = {.column n f.name (fieldType d f) f.nullable} ∪ uniqueFacts n f := by
  ext g
  simp only [laid, Set.mem_ofPred_eq, Set.singleton_union, Set.mem_insert_iff, uniqueFacts]
  constructor
  · intro h
    cases h with
    | field _ _ => exact .inl rfl
    | unique hu hp => exact .inr (by simp [hu, hp])
  · rintro (rfl | hg)
    · exact .field n f
    · split at hg
      · rename_i h
        simp only [Bool.and_eq_true, Bool.not_eq_true'] at h
        obtain rfl := hg
        exact .unique h.1 h.2
      · cases hg

theorem laid_reference (hs : s.Sound) {n : String} {r : Reference} {k : Field}
    (hk : s.Key r.target k) :
    laid d s (.relationship n (.single r)) =
      {.column n r.name (typeName d k.type) r.nullable,
        .foreignKey n r.name (resolved r.target k).1 (resolved r.target k).2} := by
  ext g
  simp only [laid, Set.mem_ofPred_eq, Set.mem_insert_iff, Set.mem_singleton_iff]
  constructor
  · intro h
    cases h with
    | reference hl =>
      rw [hs.key_unique hk.1 hl.1 hk.2 hl.2]
      exact .inl rfl
    | target hl =>
      rw [hs.key_unique hk.1 hl.1 hk.2 hl.2]
      exact .inr rfl
  · rintro (rfl | rfl)
    · exact .reference hk
    · exact .target hk

theorem leaving_of_removed? (hs : s.Sound) (h : step.isChange = true) (hapt : step.Apt s)
    {x : Declaration} (hx : step.removed? = some x) (hxs : s.Declares x) :
    leaving d s step = laid d s x := by
  ext f
  constructor
  · rintro ⟨y, hy, hrem, hlays⟩
    obtain rfl := Option.some.inj (hx.symm.trans ((Step.removes_iff hs h hapt hy).1 hrem))
    exact hlays
  · exact fun hlays => ⟨x, hxs, (Step.removes_iff hs h hapt hxs).2 hx, hlays⟩

theorem leaving_eq_empty (hs : s.Sound) (h : step.isChange = true) (hapt : step.Apt s)
    (hx : step.removed? = none) : leaving d s step = ∅ := by
  refine Set.eq_empty_iff_forall_notMem.2 ?_
  rintro f ⟨y, hy, hrem, -⟩
  rw [Step.removes_iff hs h hapt hy, hx] at hrem
  cases hrem

theorem arriving_of_added? (h : step.isChange = true) {x : Declaration}
    (hx : step.added? = some x) : arriving d t step = laid d t x := by
  ext f
  simp only [arriving, laid, Set.mem_ofPred_eq, Step.adds_iff h, hx, Option.some_inj,
    exists_eq_left']

theorem arriving_eq_empty (h : step.isChange = true) (hx : step.added? = none) :
    arriving d t step = ∅ := by
  ext f
  simp [arriving, Step.adds_iff h, hx]

/-- What stays is not about a column that goes. -/
theorem not_about_of_staying (hs : s.Sound) (h : step.isChange = true) (hapt : step.Apt s)
    {x : Declaration} (hx : step.removed? = some x) (hxs : s.Declares x) {n c : String}
    (hxc : x.column? = some (n, c)) {f : Fact} (hf : f ∈ staying d s step) : ¬ f.About n c := by
  intro habout
  obtain ⟨y, hy, hrem, hlays⟩ := hf
  have hyc := hlays.column?_of_about hs hy (hxs.of_column? hxc) habout
  obtain rfl := hs.eq_of_column? hy hxs hyc hxc
  exact hrem ((Step.removes_iff hs h hapt hy).2 hx)

end Sql

end SchemaLedger
