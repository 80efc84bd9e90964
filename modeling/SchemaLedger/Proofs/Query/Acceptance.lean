import SchemaLedger.Proofs.Query.Grammar
import SchemaLedger.Proofs.Query.Correctness
import SchemaLedger.Proofs.Sql.Creation

set_option autoImplicit false

/-!
# Accepted plans

Which plans compile over the tables of a schema: those in which every path is, for the place where
it stands, what the grammar of paths asks for. Any other plan is refused. A valid schema need not have
tables, and over such a schema no plan compiles, whatever its paths are.
-/
namespace SchemaLedger.Query

variable {s : Schema} {root : Entity} {path : String}

/-! ## What is accepted -/

/-- What a field can be compared with: another field, or a value; a null is neither less nor greater
than anything. -/
def Comparable (s : Schema) (root : Entity) (op : Comparison) : Expr → Prop
  | .field other => ToColumn s root (Path.parts other)
  | .value v => v = .null → op = .eq ∨ op = .ne
  | _ => False

/-- The only field of a comparison, or the left one of two, can be tested; the other side can be
what it is compared with. -/
def ComparesWell (s : Schema) (root : Entity) (left : Expr) (op : Comparison) (right : Expr) :
    Prop :=
  match left.path?, right.path? with
  | some path, _ => Testable s root (Path.parts path) ∧ Comparable s root op right
  | none, some path => Testable s root (Path.parts path) ∧ Comparable s root op left
  | none, none => False

mutual

/-- A predicate whose paths can be used where they stand. -/
def Expr.Accepted (s : Schema) (root : Entity) : Expr → Prop
  | .and operands => Expr.AllAccepted s root operands
  | .or operands => Expr.AllAccepted s root operands
  | .not operand => operand.Accepted s root
  | .compare left op right => ComparesWell s root left op right
  | .inSet subject _ => ∃ path, subject = .field path ∧ Testable s root (Path.parts path)
  | _ => False

def Expr.AllAccepted (s : Schema) (root : Entity) : List Expr → Prop
  | [] => True
  | e :: rest => e.Accepted s root ∧ Expr.AllAccepted s root rest

end

mutual

/-- Membership is of a field. -/
def Expr.isTyped : Expr → Bool
  | .and operands => Expr.allTyped operands
  | .or operands => Expr.allTyped operands
  | .not operand => operand.isTyped
  | .inSet subject _ => subject.path?.isSome
  | _ => true

def Expr.allTyped : List Expr → Bool
  | [] => true
  | e :: rest => e.isTyped && Expr.allTyped rest

end

/-- A plan whose paths can be used where they stand. -/
structure Plan.Accepted (s : Schema) (root : Entity) (p : Plan) : Prop where
  projections : ∀ path ∈ p.projections, ToColumn s root (Path.parts path)
  joins : ∀ path ∈ p.joins, IsChain s root (Path.parts path)
  predicate : ∀ e, p.predicate = some e → e.Accepted s root
  ordering : ∀ k ∈ p.ordering, ToColumn s root (Path.parts k.path)

def Leaf.Accepted (s : Schema) (root : Entity) : Leaf → Prop
  | .compare op other => Comparable s root op other
  | .oneOf _ => True

theorem Expr.path?_eq_some {e : Expr} : e.path? = some path ↔ e = .field path := by
  cases e <;> simp [path?]

theorem comparable_swapped (op : Comparison) (e : Expr) :
    Comparable s root op.swapped e ↔ Comparable s root op e := by
  cases e with
  | value v => cases op <;> simp [Comparable, Comparison.swapped]
  | _ => exact Iff.rfl

section Sound

variable (hs : s.Sound) (hroot : root ∈ s.entities)

include hs hroot

/-! ## Leaves -/

theorem Leaf.decides_test (column : Sql.ColumnRef) (leaf : Leaf)
    (h : ∀ op, leaf = .compare op (.field path) → ToColumn s root (Path.parts path)) :
    Decides (leaf.Accepted s root) (leaf.test s root path column) := by
  cases leaf with
  | oneOf values => cases values <;> exact .of_ok rfl trivial
  | compare op other =>
    cases other with
    | field other =>
      by_cases heq : other = path
      · subst heq
        refine .of_ok (a := .compare op column (.column column)) ?_ (h op rfl)
        rw [test_field, rightColumn, if_pos rfl]
        rfl
      · rw [test_field, rightColumn, if_neg heq]
        exact (decides_resolve hs hroot other).map _
    | value v =>
      by_cases hv : v = .null
      · subst hv
        cases op with
        | eq => exact .of_ok rfl fun _ => .inl rfl
        | ne => exact .of_ok rfl fun _ => .inr rfl
        | _ => exact .of_error (refuses_unsupported rfl) rfl fun hin => by simpa using hin rfl
      · exact .of_ok (literalTest_of_ne hv column op) fun hnull => absurd hnull hv
    | _ => exact .of_error (refuses_unsupported rfl) rfl id

theorem decides_linkedRow {c : Path.Crossing} (hc : Path.crossing s root path = .ok (some c))
    {leaf : Leaf} (hleaf : ∀ op, leaf ≠ .compare op (.field path)) (n : Nat) :
    Decides (Testable s root (Path.parts path) ∧ leaf.Accepted s root)
      (linkedRow s root path c leaf n) := by
  obtain ⟨-, hlead, hlink⟩ := (crossing_eq_some hs hroot).1 hc
  obtain ⟨target, ht, hmem, -⟩ := exists_target hs (hlead.mem hroot) hlink
  have htest : ∀ column, Decides (leaf.Accepted s root) (leaf.test s root path column) :=
    fun column => leaf.decides_test hs hroot column fun op heq => absurd heq (hleaf op)
  rw [testable_of_crossing hs hroot hc ht]
  obtain ⟨chain, owner, link, rest⟩ := c
  have htarget : Path.target s link.target = .ok target := Path.target_eq_ok.2 ht
  unfold linkedRow
  rw [htarget]
  match rest with
  | [] => exact ((htest _).map _).congr (by simp)
  | [name] =>
    have hrest : ([name] = [] ∨ ∃ other ∈ target.columnNames, [name] = [other]) ↔
        name ∈ target.columnNames := by simp
    rw [hrest]
    by_cases hmany : (target.relationship? name).any (·.link?.isSome) = true
    · refine .of_error (e := .compile (.pastMany path owner.name link.name))
        (refuses_unsupported rfl) ?_ fun hin => ?_
      · exact if_pos hmany
      · obtain ⟨r, hr, hl⟩ := (Option.any_eq_true _ _).1 hmany
        cases r with
        | single r => cases hl
        | many l =>
          obtain ⟨hin', hname⟩ := (relationship?_eq_some (hs.entities target hmem)).1 hr
          exact ne_of_column (hs.entities target hmem) hin.1 hin' hname
    · refine (congrArg (Decides _) (if_neg hmany)).mpr ?_
      exact (decides_columnOf hs hmem _ name).andThen fun column _ => (htest column).map _
  | _ :: _ :: _ =>
    refine .of_error (refuses_unsupported rfl) rfl ?_
    simp

/-- What stands on the right of a leaf is reached over references alone. -/
theorem decides_leafCondition (path : String) (leaf : Leaf)
    (hright : ∀ op other, leaf = .compare op (.field other) →
      Path.crossing s root other = .ok none) (links : Nat) :
    Decides (Testable s root (Path.parts path) ∧ leaf.Accepted s root)
      (leafCondition s root links path leaf) := by
  unfold leafCondition
  cases hc : Path.crossing s root path with
  | error err =>
    exact .of_error (refuses_of_crossingFrom hs hroot hc) rfl fun h =>
      not_testable_of_error hs hroot hc h.1
  | ok crossing =>
    cases crossing with
    | none =>
      refine ((decides_resolve hs hroot path).andThen fun column hcolumn => ?_).congr
        (and_congr_left fun _ => (testable_of_none hs hroot hc).symm)
      refine (leaf.decides_test hs hroot column fun _ _ => ?_).map _
      exact (decides_resolve hs hroot path).succeeds.1 ⟨column, hcolumn⟩
    | some c =>
      refine (decides_linkedRow hs hroot hc (fun op heq => ?_) (links + 1)).map _
      exact nomatch hc.symm.trans (hright op path heq)

/-! ## Predicates -/

theorem decides_compare (left : Expr) (op : Comparison) (right : Expr) (links : Nat) :
    Decides (ComparesWell s root left op right)
      (condition s root links (.compare left op right)) := by
  rw [condition]
  unfold orient ComparesWell
  cases hl : left.path? with
  | none =>
    cases hr : right.path? with
    | none => exact .of_error (refuses_unsupported rfl) rfl id
    | some path =>
      refine (decides_leafCondition hs hroot path (.compare op.swapped left) ?_ links).congr
        (and_congr_right fun _ => comparable_swapped op left)
      rintro _ other heq
      cases heq
      cases hl
  | some path =>
    cases hr : right.path? with
    | none =>
      refine decides_leafCondition hs hroot path (.compare op right) ?_ links
      rintro _ other heq
      cases heq
      cases hr
    | some other =>
      obtain rfl := Expr.path?_eq_some.1 hr
      cases hc : Path.crossing s root other with
      | error err =>
        refine .of_error (refuses_of_crossingFrom hs hroot hc) (by simp only [hc]; rfl) fun h => ?_
        exact nomatch hc.symm.trans (crossing_of_column hs hroot h.2)
      | ok crossing =>
        cases crossing with
        | some c =>
          refine .of_error (e := .compile (.manyOnRight other)) (refuses_unsupported rfl)
            (by simp only [hc]; rfl) fun h => ?_
          exact nomatch hc.symm.trans (crossing_of_column hs hroot h.2)
        | none =>
          have hleaf := decides_leafCondition hs hroot path (.compare op (.field other))
            (fun _ _ heq => by cases heq; exact hc) links
          simp only [hc]
          exact hleaf

end Sound

mutual

theorem decides_condition (hs : s.Sound) (hroot : root ∈ s.entities) :
    ∀ (e : Expr) (links : Nat), e.isTyped = true →
      Decides (e.Accepted s root) (condition s root links e)
  | .and operands, links, ht => (decides_conditions hs hroot operands links ht).map _
  | .or operands, links, ht => (decides_conditions hs hroot operands links ht).map _
  | .not operand, links, ht => (decides_condition hs hroot operand links ht).map _
  | .compare left op right, links, _ => decides_compare hs hroot left op right links
  | .inSet (.field path) values, links, _ => by
    refine (decides_leafCondition hs hroot path (.oneOf values) nofun links).congr ?_
    simp [Expr.Accepted, Leaf.Accepted]
  | .field _, _, _ => .of_error (refuses_unsupported rfl) rfl id
  | .value _, _, _ => .of_error (refuses_unsupported rfl) rfl id
  | .bare _, _, _ => .of_error (refuses_unsupported rfl) rfl id

theorem decides_conditions (hs : s.Sound) (hroot : root ∈ s.entities) :
    ∀ (es : List Expr) (links : Nat), Expr.allTyped es = true →
      Decides (Expr.AllAccepted s root es) (conditions s root links es)
  | [], _, _ => .of_ok rfl trivial
  | e :: rest, links, ht => by
    obtain ⟨he, hrest⟩ := Bool.and_eq_true_iff.1 ht
    exact (decides_condition hs hroot e links he).andThen fun c _ =>
      (decides_conditions hs hroot rest c.2 hrest).map _

end

theorem exists_path_of_inSet {links : Nat} {subject : Expr} {values : List Value}
    {r : Sql.Condition × Nat} (h : condition s root links (.inSet subject values) = .ok r) :
    ∃ path, subject = .field path := by
  cases subject with
  | field path => exact ⟨path, rfl⟩
  | _ => cases h

mutual

theorem isTyped_of_condition : ∀ (e : Expr) (links : Nat) (r : Sql.Condition × Nat),
    condition s root links e = .ok r → e.isTyped = true
  | .and operands, links, _, h => by
    obtain ⟨items, hitems, -⟩ := (Outcome.bind_eq_ok _ _ _).1 h
    exact allTyped_of_conditions operands links items hitems
  | .or operands, links, _, h => by
    obtain ⟨items, hitems, -⟩ := (Outcome.bind_eq_ok _ _ _).1 h
    exact allTyped_of_conditions operands links items hitems
  | .not operand, links, _, h => by
    obtain ⟨c, hc, -⟩ := (Outcome.bind_eq_ok _ _ _).1 h
    exact isTyped_of_condition operand links c hc
  | .compare _ _ _, _, _, _ => rfl
  | .inSet _ _, _, _, h => by
    obtain ⟨path, rfl⟩ := exists_path_of_inSet h
    rfl
  | .field _, _, _, _ => rfl
  | .value _, _, _, _ => rfl
  | .bare _, _, _, _ => rfl

theorem allTyped_of_conditions : ∀ (es : List Expr) (links : Nat) (r : List Sql.Condition × Nat),
    conditions s root links es = .ok r → Expr.allTyped es = true
  | [], _, _, _ => rfl
  | e :: rest, links, _, h => by
    obtain ⟨c, hc, h⟩ := (Outcome.bind_eq_ok _ _ _).1 h
    obtain ⟨cs, hcs, -⟩ := (Outcome.bind_eq_ok _ _ _).1 h
    exact Bool.and_eq_true_iff.2
      ⟨isTyped_of_condition e links c hc, allTyped_of_conditions rest c.2 cs hcs⟩

end

/-! ## The chains of an accepted plan -/

/-- The references that a path follows: the parts before its column, or before the many-to-many
relationship that it crosses. -/
def Path.Follows (s : Schema) (root : Entity) (path : String) (chain : List String) : Prop :=
  (∃ last name, Path.parts path = chain ++ [name] ∧ Leads s root chain last ∧
    name ∈ last.columnNames) ∨
  ∃ owner link rest, Path.parts path = chain ++ ManyLink.name link :: rest ∧
    Leads s root chain owner ∧ .many link ∈ owner.relationships

theorem Path.Follows.exists_leads {chain : List String} (h : Path.Follows s root path chain) :
    ∃ last, Leads s root chain last := by
  rcases h with ⟨last, _, _, hlead, _⟩ | ⟨last, _, _, _, hlead, _⟩ <;> exact ⟨last, hlead⟩

theorem Testable.exists_follows (h : Testable s root (Path.parts path)) :
    ∃ chain, Path.Follows s root path chain := by
  rcases h with ⟨chain, last, name, hcolumn⟩ | ⟨chain, owner, link, rest, hparts, hlead, hlink, -⟩
  · exact ⟨chain, .inl ⟨last, name, hcolumn⟩⟩
  · exact ⟨chain, .inr ⟨owner, link, rest, hparts, hlead, hlink⟩⟩

/-- The compiler follows a path as far as its references go. -/
theorem followed_of_follows (hs : s.Sound) (hroot : root ∈ s.entities) {chain : List String}
    (h : Path.Follows s root path chain) : Path.followed s root path = chain := by
  rcases h with ⟨last, name, hparts, hlead, hn⟩ | ⟨owner, link, rest, hparts, hlead, hlink⟩
  · rw [Path.followed, crossing_of_column hs hroot ⟨chain, last, name, hparts, hlead, hn⟩]
    dsimp only
    rw [Path.chain, hparts, List.dropLast_concat]
  · rw [Path.followed, (crossing_eq_some (c := ⟨chain, owner, link, rest⟩) hs hroot).2
      ⟨hparts, hlead, hlink⟩]

theorem ToColumn.exists_leads (h : ToColumn s root (Path.parts path)) :
    ∃ last, Leads s root (Path.chain path) last := by
  obtain ⟨chain, last, name, hparts, hlead, -⟩ := h
  rw [Path.chain, hparts, List.dropLast_concat]
  exact ⟨last, hlead⟩

theorem testable_of_comparable {op : Comparison} {e : Expr} (h : Comparable s root op e) :
    ∀ path ∈ e.paths, Testable s root (Path.parts path) := by
  cases e with
  | field other =>
    simp only [Expr.paths, List.mem_singleton, forall_eq]
    exact .inl h
  | value v => simp [Expr.paths]
  | _ => exact h.elim

theorem testable_of_comparesWell {left right : Expr} {op : Comparison}
    (h : ComparesWell s root left op right) :
    ∀ path ∈ left.paths ++ right.paths, Testable s root (Path.parts path) := by
  intro path hpath
  unfold ComparesWell at h
  split at h
  · next subject _ hl =>
    obtain rfl := Expr.path?_eq_some.1 hl
    rcases List.mem_append.1 hpath with hin | hin
    · obtain rfl := List.mem_singleton.1 hin
      exact h.1
    · exact testable_of_comparable h.2 path hin
  · next subject hr =>
    obtain rfl := Expr.path?_eq_some.1 hr
    rcases List.mem_append.1 hpath with hin | hin
    · exact testable_of_comparable h.2 path hin
    · obtain rfl := List.mem_singleton.1 hin
      exact h.1
  · exact h.elim

mutual

theorem testable_of_accepted : ∀ (e : Expr), e.Accepted s root →
    ∀ path ∈ e.paths, Testable s root (Path.parts path)
  | .and operands, h => testable_of_allAccepted operands h
  | .or operands, h => testable_of_allAccepted operands h
  | .not operand, h => testable_of_accepted operand h
  | .compare _ _ _, h => testable_of_comparesWell h
  | .inSet _ _, ⟨path, rfl, h⟩ => by
    intro other hother
    obtain rfl := List.mem_singleton.1 hother
    exact h

theorem testable_of_allAccepted : ∀ (es : List Expr), Expr.AllAccepted s root es →
    ∀ path ∈ Expr.pathsOf es, Testable s root (Path.parts path)
  | [], _ => nofun
  | e :: rest, ⟨he, hrest⟩ => by
    intro path hpath
    rcases List.mem_append.1 hpath with hin | hin
    · exact testable_of_accepted e he path hin
    · exact testable_of_allAccepted rest hrest path hin

end

/-! ## Plans -/

theorem Plan.compileOver_of_compile {p : Plan} {d : Dialect} {c : Compiled}
    (h : p.compile d s = .ok c) :
    ∃ root, s.entity? p.entity = some root ∧ p.compileOver d s root = .ok c := by
  obtain ⟨_, -, h⟩ := (Outcome.bind_eq_ok _ _ _).1 h
  split at h
  · cases h
  · next root hroot => exact ⟨root, hroot, h⟩

theorem Plan.compileOver_eq_ok {p : Plan} {d : Dialect} {c : Compiled}
    (h : p.compileOver d s root = .ok c) :
    ∃ columns condition? ordering joins,
      (p.outputs root).mapM (p.outputColumn s root) = .ok columns ∧
      (p.joins.forM fun path => do
        let _ ← Path.walk s path root (Path.parts path)
        Except.ok ()) = .ok () ∧
      (p.predicate.mapM fun e => do
        let (c, _) ← condition s root 0 e
        Except.ok c) = .ok condition? ∧
      p.ordering.mapM (sortKey s root) = .ok ordering ∧
      (joinedChains (p.chains s root)).mapM (joinOf s root) = .ok joins ∧
      c = ⟨{ outputs := (columns.zip (p.labels d root)).map fun c => ⟨c.1, c.2⟩,
             source := { table := root.name }, joins, condition := condition?, ordering,
             limit := p.limit, offset := p.offset }, p.outputs root⟩ := by
  obtain ⟨columns, hcolumns, h⟩ := (Outcome.bind_eq_ok _ _ _).1 h
  obtain ⟨_, hwalks, h⟩ := (Outcome.bind_eq_ok _ _ _).1 h
  obtain ⟨condition?, hcondition, h⟩ := (Outcome.bind_eq_ok _ _ _).1 h
  obtain ⟨ordering, hordering, h⟩ := (Outcome.bind_eq_ok _ _ _).1 h
  obtain ⟨joins, hjoins, hok⟩ := (Outcome.bind_eq_ok _ _ _).1 h
  exact ⟨columns, condition?, ordering, joins, hcolumns, hwalks, hcondition, hordering, hjoins,
    (Except.ok.inj hok).symm⟩

theorem Plan.predicate_eq_ok {p : Plan} {condition? : Option Sql.Condition}
    (h : (p.predicate.mapM fun e => do
      let (c, _) ← condition s root 0 e
      Except.ok c) = .ok condition?) :
    p.predicate = none ∧ condition? = none ∨ ∃ e c n, p.predicate = some e ∧
      condition s root 0 e = .ok (c, n) ∧ condition? = some c := by
  cases hp : p.predicate with
  | none =>
    rw [hp] at h
    cases h
    exact .inl ⟨rfl, rfl⟩
  | some e =>
    rw [hp] at h
    obtain ⟨c, hc, hok⟩ := (Outcome.bind_eq_ok _ _ _).1 h
    cases hok
    obtain ⟨⟨c, n⟩, hc, hok⟩ := (Outcome.bind_eq_ok _ _ _).1 hc
    cases hok
    exact .inr ⟨e, c, n, rfl, hc, rfl⟩

section Plan

variable (hs : s.Sound) (hroot : root ∈ s.entities)

include hs hroot

/-- The join of the last reference of a chain. -/
theorem joinOf_of_leads {before : List String} {parent target : Entity} {r : Reference}
    (h : Leads s root before parent) (hr : .single r ∈ parent.relationships)
    (ht : target ∈ s.entities) (hname : target.name = r.target) :
    joinOf s root (before ++ [r.name]) =
      .ok ⟨⟨target.name, .joined (before ++ [r.name])⟩, canMiss s root (before ++ [r.name]),
        ⟨occurrence root before, r.name, keyType target⟩,
        keyColumn target (.joined (before ++ [r.name]))⟩ := by
  have hparent := hs.entities parent (h.mem hroot)
  have htarget := (Schema.entity?_eq_some hs.distinct _ _).2 ⟨ht, hname⟩
  have hwhole : Leads s root (before ++ [r.name]) target :=
    h.append (.onward hr ht hname (.here target))
  have hcolumn : ∀ path, columnOf s path parent (occurrence root before) r.name =
      .ok ⟨occurrence root before, r.name, keyType target⟩ := by
    refine fun path => columnOf_eq_ok.2 ⟨?_, _, columnType?_single hparent
      ((relationship?_eq_some hparent).2 ⟨hr, rfl⟩) htarget, rfl⟩
    exact (parent.mem_columnNames _).2 (.inr ⟨r, (parent.mem_references r).2 hr, rfl⟩)
  unfold joinOf
  rw [occurrence_of_ne (by simp), List.dropLast_concat, List.getLast?_concat, Option.getD_some]
  refine (Outcome.bind_eq_ok _ _ _).2 ⟨parent, (walk_eq_ok hs hroot).2 h, ?_⟩
  refine (Outcome.bind_eq_ok _ _ _).2 ⟨target, (walk_eq_ok hs hroot).2 hwhole, ?_⟩
  exact (Outcome.bind_eq_ok _ _ _).2 ⟨_, hcolumn _, rfl⟩

theorem decides_sortKey (k : OrderKey) :
    Decides (ToColumn s root (Path.parts k.path)) (sortKey s root k) := by
  unfold sortKey
  cases hc : Path.crossing s root k.path with
  | error err =>
    exact .of_error (refuses_of_crossingFrom hs hroot hc) rfl fun h =>
      nomatch hc.symm.trans (crossing_of_column hs hroot h)
  | ok crossing =>
    cases crossing with
    | none => exact (decides_resolve hs hroot k.path).map _
    | some c =>
      exact .of_error (refuses_unsupported rfl) rfl fun h =>
        nomatch hc.symm.trans (crossing_of_column hs hroot h)

theorem decides_outputs (p : Plan) :
    Decides (∀ path ∈ p.projections, ToColumn s root (Path.parts path))
      ((p.outputs root).mapM (p.outputColumn s root)) := by
  unfold Plan.outputs Plan.outputColumn
  cases hp : p.projections with
  | nil =>
    refine (Decides.mapM fun name _ => decides_columnOf hs hroot (.table root.name) name).congr ?_
    simp
  | cons first rest => exact .mapM fun path _ => decides_resolve hs hroot path

theorem decides_joins (p : Plan) :
    Decides (∀ path ∈ p.joins, IsChain s root (Path.parts path))
      (p.joins.forM fun path => do
        let _ ← Path.walk s path root (Path.parts path)
        Except.ok ()) := by
  refine .forM fun path _ => ((decides_walk hs hroot (Path.parts path)).map _).congr ?_
  exact (and_iff_right (by simp [Path.parts_eq])).symm

theorem decides_predicate (p : Plan) (ht : ∀ e, p.predicate = some e → e.isTyped = true) :
    Decides (∀ e, p.predicate = some e → e.Accepted s root)
      (p.predicate.mapM fun e => do
        let (c, _) ← condition s root 0 e
        Except.ok c) := by
  cases hp : p.predicate with
  | none => exact .of_ok rfl nofun
  | some e =>
    refine (((decides_condition hs hroot e 0 (ht e hp)).map _).map some).congr ?_
    simp

/-- Every chain that an accepted plan mentions leads somewhere. -/
theorem Plan.Accepted.exists_leads {p : Plan} (h : p.Accepted s root) :
    ∀ chain ∈ p.chains s root, ∃ last, Leads s root chain last := by
  intro chain hchain
  simp only [Plan.chains, List.mem_append, List.mem_map] at hchain
  rcases hchain with ((⟨path, hp, rfl⟩ | ⟨path, hp, rfl⟩) | ⟨path, hp, rfl⟩) | ⟨k, hk, rfl⟩
  · exact (h.projections path hp).exists_leads
  · exact (h.joins path hp).2
  · cases he : p.predicate with
    | none => simp [he] at hp
    | some e =>
      rw [he] at hp
      obtain ⟨chain, hchain⟩ := (testable_of_accepted e (h.predicate e he) path hp).exists_follows
      rw [followed_of_follows hs hroot hchain]
      exact hchain.exists_leads
  · exact (h.ordering k hk).exists_leads

theorem Plan.Accepted.exists_joins {p : Plan} (h : p.Accepted s root) :
    ∃ joins, (joinedChains (p.chains s root)).mapM (joinOf s root) = .ok joins := by
  refine Outcome.exists_mapM fun chain hchain => ?_
  obtain ⟨whole, hwhole, hne, rest, rfl⟩ := mem_joinedChains.1 hchain
  obtain ⟨last, hlead⟩ := h.exists_leads hs hroot _ hwhole
  obtain ⟨m, hbefore, -⟩ := hlead.split
  obtain ⟨before, parent, r, rfl, hparent, hr, hm, hname⟩ := hbefore.exists_last hne
  exact ⟨_, joinOf_of_leads hs hroot hparent hr hm hname⟩

theorem decides_compileOver (p : Plan) (d : Dialect)
    (ht : ∀ e, p.predicate = some e → e.isTyped = true) :
    Decides (p.Accepted s root) (p.compileOver d s root) := by
  have houtputs := decides_outputs hs hroot p
  have hjoins := decides_joins hs hroot p
  have hpredicate := decides_predicate hs hroot p ht
  have hordering : Decides _ (p.ordering.mapM (sortKey s root)) :=
    .mapM fun k _ => decides_sortKey hs hroot k
  refine (houtputs.andThen fun columns hc => hjoins.andThen fun u hu =>
    hpredicate.andThen fun c hp => hordering.andThen (Q := True) fun keys hk => ?_).congr ?_
  · have haccepted : p.Accepted s root :=
      ⟨houtputs.succeeds.1 ⟨_, hc⟩, hjoins.succeeds.1 ⟨_, hu⟩, hpredicate.succeeds.1 ⟨_, hp⟩,
        hordering.succeeds.1 ⟨_, hk⟩⟩
    obtain ⟨joins, hj⟩ := haccepted.exists_joins hs hroot
    rw [hj]
    exact .of_ok rfl trivial
  · exact ⟨fun ⟨hp, hj, he, hk, _⟩ => ⟨hp, hj, he, hk⟩, fun h =>
      ⟨h.projections, h.joins, h.predicate, h.ordering, trivial⟩⟩

/-- What compiles is accepted. -/
theorem Plan.accepted_of_compileOver {p : Plan} {d : Dialect} {c : Compiled}
    (h : p.compileOver d s root = .ok c) : p.Accepted s root := by
  refine (decides_compileOver hs hroot p d fun e he => ?_).succeeds.1 ⟨c, h⟩
  obtain ⟨_, condition?, _, _, -, -, hcondition, -⟩ := compileOver_eq_ok h
  rcases predicate_eq_ok hcondition with ⟨hnone, -⟩ | ⟨e', c, n, he', hc, -⟩
  · exact nomatch hnone.symm.trans he
  · obtain rfl := Option.some.inj (he'.symm.trans he)
    exact isTyped_of_condition e' 0 _ hc

end Plan

/-- A plan compiles if there are tables, and it is accepted over its root. -/
theorem Plan.exists_compile_iff (hs : s.Valid) {p : Plan} {d : Dialect}
    (ht : ∀ e, p.predicate = some e → e.isTyped = true) :
    (∃ c, p.compile d s = .ok c) ↔ (∃ tables, Sql.Tables.ofSchema d s = .ok tables) ∧
      ∃ root, s.entity? p.entity = some root ∧ p.Accepted s root := by
  have hsound := (Schema.valid_iff_sound s).1 hs
  unfold compile
  rw [Outcome.exists_bind_iff, ← exists_and_right]
  refine exists_congr fun tables => and_congr_right fun _ => ?_
  cases hroot : s.entity? p.entity with
  | none => simp
  | some root =>
    have hin : root ∈ s.entities := List.mem_of_find?_eq_some hroot
    rw [(decides_compileOver hsound hin p d ht).succeeds]
    simp

/-- The plans that compile are those whose paths can be used where they stand, and all others are
refused, if the tables of the schema can be made. If they cannot, every plan raises what they do. -/
theorem Plan.compile_decides (hs : s.Valid) {p : Plan} {d : Dialect}
    (hroot : s.entity? p.entity = some root)
    (ht : ∀ e, p.predicate = some e → e.isTyped = true) :
    ((∃ c, p.compile d s = .ok c) ↔ s.HasTables ∧ p.Accepted s root) ∧
      (s.HasTables → ∀ err, p.compile d s = .error err → Refuses err) ∧
      (¬ s.HasTables → ∃ err, p.compile d s = .error err ∧ Sql.Unmakeable err) := by
  have hsound := (Schema.valid_iff_sound s).1 hs
  have htables := Sql.exists_ofSchema_iff d hsound
  have hdecides := decides_compileOver hsound (List.mem_of_find?_eq_some hroot) p d ht
  refine ⟨?_, fun hhas err h => ?_, fun hno => ?_⟩
  · rw [exists_compile_iff hs ht, htables]
    simp [hroot]
  · obtain ⟨tables, hmade⟩ := htables.2 hhas
    rw [compile, hmade, hroot] at h
    exact hdecides.refuses err h
  · cases hmade : Sql.Tables.ofSchema d s with
    | ok tables => exact absurd (htables.1 ⟨tables, hmade⟩) hno
    | error err =>
      refine ⟨err, ?_, Sql.unmakeable_of_ofSchema hsound hmade⟩
      rw [compile, hmade]
      rfl

/-- The same books with their labels, which are too many for a column. -/
def shownLabels : Plan := labelled.select ["tags.label"]

/-- A measure whose size is beyond all doubles by default. -/
def measure : Entity where
  name := "Measure"
  fields := [{ name := "id", type := .bigint, primaryKey := true, auto := true },
    { name := "size", type := .real, default := .int (10 ^ 400) }]

def measures : Schema where
  entities := [measure]

def keysOfMeasures : Plan := ({ entity := "Measure" } : Plan).select ["id"]

/-- Labels can be tested, but not shown; the keys of measures are a column, and still cannot be shown. -/
theorem compile_decides_labels :
    (∃ book, library.entity? "Book" = some book ∧ labelled.Accepted library book ∧
      ¬ shownLabels.Accepted library book) ∧
    keysOfMeasures.Accepted measures measure ∧
      ∃ err, keysOfMeasures.compile .sqlite measures = .error err ∧ Sql.Unmakeable err := by
  have htyped : ∀ e, labelled.predicate = some e → e.isTyped = true := by
    rintro e he
    cases he
    rfl
  refine ⟨?_, ⟨fun path hpath => ?_, nofun, nofun, nofun⟩, ?_⟩
  · obtain ⟨book, hbook⟩ : ∃ book, library.entity? "Book" = some book := ⟨_, rfl⟩
    have hs : library.Valid := by decide +kernel
    have hcompiled : ∃ c, labelled.compile .sqlite library = .ok c :=
      Outcome.exists_ok (by decide +kernel)
    obtain ⟨hhas, haccepted⟩ := (Plan.compile_decides hs hbook htyped).1.1 hcompiled
    refine ⟨book, hbook, haccepted, fun h => ?_⟩
    obtain ⟨c, hc⟩ :=
      (Plan.compile_decides (p := shownLabels) (d := .sqlite) hs hbook htyped).1.2 ⟨hhas, h⟩
    cases hc
  · obtain rfl := List.mem_singleton.1 hpath
    exact ⟨[], measure, "id", by decide +kernel, .here measure, by decide +kernel⟩
  · have hs : measures.Valid := by decide +kernel
    have hfails : (Sql.Tables.ofSchema .sqlite measures).isOk = false := by decide +kernel
    refine (Plan.compile_decides (p := keysOfMeasures) (d := .sqlite) hs rfl nofun).2.2 fun hhas => ?_
    obtain ⟨tables, hmade⟩ :=
      (Sql.exists_ofSchema_iff .sqlite ((Schema.valid_iff_sound measures).1 hs)).2 hhas
    rw [hmade] at hfails
    cases hfails

end SchemaLedger.Query
