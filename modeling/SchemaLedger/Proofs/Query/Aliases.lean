import SchemaLedger.Proofs.Query.FromClause
import SchemaLedger.Proofs.Sql.Scoping

set_option autoImplicit false

/-!
# Correlation names

Every column of a compiled query is read from a source in its scope. Two sources of a scope share
their name only where the names of two chains are glued to one text, or where a correlation name
happens to be the name of the root.
-/
namespace SchemaLedger.Query

open Sql (ColumnRef Condition Frame LinkedRow Occurrence Source)

variable {s : Schema} {root : Entity} {chains : List (List String)}

/-! ## Where columns are read -/

/-- An occurrence that a query has outside of its links: the root, or a chain that is joined. -/
def Placed (root : Entity) (chains : List (List String)) (o : Occurrence) : Prop :=
  ∃ chain, Covered chains chain ∧ o = occurrence root chain

theorem placed_of_resolve {path : String} {c : ColumnRef} (h : resolve s root path = .ok c)
    (hc : Covered chains (Path.chain path)) : Placed root chains c.source := by
  obtain ⟨_, _, -, -, -, rfl⟩ := resolve_eq_ok.1 h
  exact ⟨_, hc, rfl⟩

/-- A test looks at the column of its path, and at that of a path on its right. -/
theorem Leaf.placed_of_test {path : String} {column : ColumnRef} {leaf : Leaf} {t : Sql.Test}
    (h : leaf.test s root path column = .ok t) (hleaf : leaf.Grounded s root chains) :
    ∀ c ∈ t.columns, c = column ∨ Placed root chains c.source := by
  intro c hc
  cases leaf with
  | oneOf values =>
    cases values with
    | nil =>
      cases h
      cases hc
    | cons v values =>
      cases h
      exact .inl (List.mem_singleton.1 hc)
  | compare op other =>
    cases other with
    | field other =>
      rw [test_field] at h
      obtain ⟨right, hright, hok⟩ := (Outcome.bind_eq_ok _ _ _).1 h
      cases hok
      rcases List.mem_cons.1 hc with rfl | hc
      · exact .inl rfl
      · obtain rfl := List.mem_singleton.1 hc
        unfold rightColumn at hright
        split at hright
        · exact .inl (Except.ok.inj hright).symm
        · exact .inr (placed_of_resolve hright (hleaf op other rfl).2)
    | value v =>
      left
      by_cases hv : v = .null
      · subst hv
        cases op with
        | eq =>
          cases h
          exact List.mem_singleton.1 hc
        | ne =>
          cases h
          exact List.mem_singleton.1 hc
        | _ => cases h
      · obtain rfl := Except.ok.inj ((literalTest_of_ne hv column op).symm.trans h)
        exact List.mem_singleton.1 hc
    | _ => cases h

/-- A link that reads its own sources and those of the query. -/
structure LinkScoped (root : Entity) (chains : List (List String)) (r : LinkedRow) : Prop where
  sources : ∃ chain n, r.sources.map (·.occurrence) = [.link chain n] ∨
    r.sources.map (·.occurrence) = [.link chain n, .linked chain n]
  columns : ∀ c ∈ r.columns,
    c.source ∈ r.sources.map (·.occurrence) ∨ Placed root chains c.source

/-- A condition that reads the sources of the query, and in its links also theirs. -/
structure Scoped (root : Entity) (chains : List (List String)) (c : Condition) : Prop where
  columns : ∀ column ∈ c.columns, Placed root chains column.source
  links : ∀ r ∈ c.links, LinkScoped root chains r

/-- A link is scoped if its own columns are, and its leaf tests one of them. -/
theorem LinkScoped.of_test {path : String} {column : ColumnRef} {leaf : Leaf} {r : LinkedRow}
    (ht : leaf.test s root path column = .ok r.test) (hleaf : leaf.Grounded s root chains)
    (hsources : ∃ chain n, r.sources.map (·.occurrence) = [.link chain n] ∨
      r.sources.map (·.occurrence) = [.link chain n, .linked chain n])
    (hroot : Placed root chains r.owner.source)
    (hown : ∀ c, c = column ∨ c = r.linkOwner ∨ (∃ j ∈ r.target, c = j.left ∨ c = j.right) →
      c.source ∈ r.sources.map (·.occurrence)) : LinkScoped root chains r := by
  refine ⟨hsources, fun c hc => ?_⟩
  rcases LinkedRow.mem_columns.1 hc with howner | rfl | hin | hjoin
  · exact .inl (hown c (.inr (.inl howner)))
  · exact .inr hroot
  · exact (Leaf.placed_of_test ht hleaf c hin).imp_left fun heq => hown c (.inl heq)
  · exact .inl (hown c (.inr (.inr hjoin)))

theorem linkScoped_linkedRow {path : String} {c : Path.Crossing} {leaf : Leaf} {n : Nat}
    {r : LinkedRow} (h : linkedRow s root path c leaf n = .ok r) (hc : Covered chains c.chain)
    (hleaf : leaf.Grounded s root chains) : LinkScoped root chains r := by
  obtain ⟨target, link, linked, t, -, hlink, hlinked, hsource, howner, hroot, rfl, hcase⟩ :=
    linkedRow_eq_ok h
  have hplaced : Placed root chains r.owner.source := ⟨_, hc, by rw [hroot]; rfl⟩
  rcases hcase with ⟨-, htarget, ht⟩ | ⟨name, type, -, -, htarget, ht⟩
  · have hsources : r.sources.map (·.occurrence) = [link] := by
      rw [LinkedRow.sources, htarget, hsource]
      rfl
    refine .of_test ht hleaf ⟨_, n, .inl (by rw [hsources, hlink])⟩ hplaced ?_
    rw [hsources, howner, htarget]
    rintro c (rfl | rfl | ⟨j, ⟨⟩, -⟩)
    · exact List.mem_cons_self
    · exact List.mem_cons_self
  · have hsources : r.sources.map (·.occurrence) = [link, linked] := by
      rw [LinkedRow.sources, htarget, hsource]
      rfl
    refine .of_test ht hleaf ⟨_, n, .inr (by rw [hsources, hlink, hlinked])⟩ hplaced ?_
    rw [hsources, howner, htarget]
    rintro c (rfl | rfl | ⟨j, ⟨⟩, rfl | rfl⟩)
    · exact List.mem_cons_of_mem _ List.mem_cons_self
    · exact List.mem_cons_self
    · exact List.mem_cons_self
    · exact List.mem_cons_of_mem _ List.mem_cons_self

theorem scoped_leafCondition {links n : Nat} {path : String} {leaf : Leaf} {c : Condition}
    (h : leafCondition s root links path leaf = .ok (c, n))
    (hc : Covered chains (Path.followed s root path)) (hleaf : leaf.Grounded s root chains) :
    Scoped root chains c := by
  obtain ⟨crossing, hcross, h⟩ := (Outcome.bind_eq_ok _ _ _).1 h
  cases crossing with
  | none =>
    obtain ⟨column, hcolumn, h⟩ := (Outcome.bind_eq_ok _ _ _).1 h
    obtain ⟨t, ht, hok⟩ := (Outcome.bind_eq_ok _ _ _).1 h
    cases hok
    rw [followed_of_none hcross] at hc
    refine ⟨fun other hin => ?_, fun r hr => ?_⟩
    · rcases Leaf.placed_of_test ht hleaf other hin with rfl | hplaced
      · exact placed_of_resolve hcolumn hc
      · exact hplaced
    · cases hr
  | some crossing =>
    obtain ⟨row, hrow, hok⟩ := (Outcome.bind_eq_ok _ _ _).1 h
    cases hok
    rw [followed_of_crossing hcross] at hc
    refine ⟨fun other hin => ?_, fun r hr => ?_⟩
    · cases hin
    · obtain rfl := List.mem_singleton.1 hr
      exact linkScoped_linkedRow hrow hc hleaf

theorem Scoped.negated {c : Condition} (h : Scoped root chains c) :
    Scoped root chains c.negated where
  columns := by
    rw [Condition.columns_negated]
    exact h.columns
  links := by
    rw [Condition.links_negated]
    exact h.links

theorem Scoped.connect {k : Sql.Connective} {cs : List Condition}
    (h : ∀ c ∈ cs, Scoped root chains c) : Scoped root chains (.connect k cs) where
  columns column hin := by
    obtain ⟨c, hc, hin⟩ := Condition.mem_of_mem_collect_connect _ _ hin
    exact (h c hc).columns column hin
  links r hin := by
    obtain ⟨c, hc, hin⟩ := Condition.mem_of_mem_collect_connect _ _ hin
    exact (h c hc).links r hin

mutual

theorem scoped_condition : ∀ (links : Nat) (e : Expr) (c : Condition) (n : Nat),
    condition s root links e = .ok (c, n) →
    (∀ path ∈ e.paths, Covered chains (Path.followed s root path)) → Scoped root chains c
  | links, .and operands, c, n, h, hc => by
    obtain ⟨⟨items, m⟩, hitems, hok⟩ := (Outcome.bind_eq_ok _ _ _).1 h
    cases hok
    exact .connect (scoped_conditions links operands items n hitems hc)
  | links, .or operands, c, n, h, hc => by
    obtain ⟨⟨items, m⟩, hitems, hok⟩ := (Outcome.bind_eq_ok _ _ _).1 h
    cases hok
    exact .connect (scoped_conditions links operands items n hitems hc)
  | links, .not operand, c, n, h, hc => by
    obtain ⟨⟨c, m⟩, hop, hok⟩ := (Outcome.bind_eq_ok _ _ _).1 h
    cases hok
    exact (scoped_condition links operand c n hop hc).negated
  | links, .compare left op right, c, n, h, hc => by
    obtain ⟨⟨path, leaf⟩, hleaf, hcond⟩ := (Outcome.bind_eq_ok _ _ _).1 h
    obtain ⟨hpath, hother⟩ := mem_paths_of_orient hleaf
    refine scoped_leafCondition hcond (hc path hpath) fun op' other hop => ?_
    obtain ⟨hmem, hnone⟩ := hother op' other hop
    exact ⟨hnone, followed_of_none hnone ▸ hc other hmem⟩
  | links, .inSet _ values, c, n, h, hc => by
    obtain ⟨path, rfl⟩ := exists_path_of_inSet h
    have hleaf : leafCondition s root links path (.oneOf values) = .ok (c, n) := h
    exact scoped_leafCondition hleaf (hc path (List.mem_singleton_self path)) nofun
  | _, .field _, _, _, h, _ => nomatch h
  | _, .value _, _, _, h, _ => nomatch h
  | _, .bare _, _, _, h, _ => nomatch h

theorem scoped_conditions : ∀ (links : Nat) (es : List Expr) (cs : List Condition) (n : Nat),
    conditions s root links es = .ok (cs, n) →
    (∀ path ∈ Expr.pathsOf es, Covered chains (Path.followed s root path)) →
    ∀ c ∈ cs, Scoped root chains c
  | _, [], cs, n, h, _ => by
    cases h
    nofun
  | links, e :: rest, cs, n, h, hc => by
    obtain ⟨⟨c, m⟩, hcond, h⟩ := (Outcome.bind_eq_ok _ _ _).1 h
    obtain ⟨⟨others, k⟩, hothers, hok⟩ := (Outcome.bind_eq_ok _ _ _).1 h
    cases hok
    refine List.forall_mem_cons.2 ⟨?_, ?_⟩
    · exact scoped_condition links e c m hcond fun path hp => hc path (List.mem_append_left _ hp)
    · exact scoped_conditions m rest others n hothers fun path hp =>
        hc path (List.mem_append_right _ hp)

end

/-! ## Frames of a compiled query -/

theorem placed_of_outputColumn {p : Plan} {path : String} {c : ColumnRef}
    (h : p.outputColumn s root path = .ok c)
    (hc : p.projections.isEmpty = false → Covered chains (Path.chain path)) :
    Placed root chains c.source := by
  unfold Plan.outputColumn at h
  split at h
  · obtain ⟨-, _, -, rfl⟩ := columnOf_eq_ok.1 h
    exact ⟨[], .inl rfl, rfl⟩
  · next hp => exact placed_of_resolve h (hc (by simpa using hp))

theorem placed_of_sortKey {k : OrderKey} {key : Sql.SortKey} (h : sortKey s root k = .ok key)
    (hc : Covered chains (Path.chain k.path)) : Placed root chains key.column.source := by
  obtain ⟨crossing, -, h⟩ := (Outcome.bind_eq_ok _ _ _).1 h
  cases crossing with
  | some c => cases h
  | none =>
    obtain ⟨column, hcolumn, hok⟩ := (Outcome.bind_eq_ok _ _ _).1 h
    cases hok
    exact placed_of_resolve hcolumn hc

/-- The two columns of a join belong to its own chain and to its parent. -/
theorem Clause.placed {mentions : List String → Prop} {joins : List Sql.Join}
    (h : Clause s root mentions chains joins) :
    ∀ j ∈ joins, ∀ c ∈ j.columns, Placed root chains c.source := by
  intro j hj c hc
  obtain ⟨chain, hchain, before, parent, r, target, rfl, -, -, -, -, -, hleft, hright, -⟩ :=
    Paired.exists_left ⟨joins, h.attaches, .refl joins⟩ hj
  obtain ⟨hne, whole, hwhole, hprefix⟩ := (h.mem _).1 hchain
  rcases List.mem_cons.1 hc with rfl | hc
  · refine ⟨before, ?_, by rw [hleft]⟩
    by_cases hnil : before = []
    · exact .inl hnil
    · exact .inr ((h.mem _).2 ⟨hnil, whole, hwhole, (List.prefix_append _ _).trans hprefix⟩)
  · obtain rfl := List.mem_singleton.1 hc
    exact ⟨_, .inr hchain, by rw [hright, occurrence_of_ne hne]; rfl⟩

/-- The sources of a query are its root and its chains. -/
theorem Clause.occurrences {mentions : List String → Prop} {joins : List Sql.Join}
    (h : Clause s root mentions chains joins) :
    joins.map (·.source.occurrence) = chains.map .joined := by
  refine (map_eq_map_of_forall₂ (h.attaches.imp fun chain j hj => ?_)).symm
  obtain ⟨_, _, _, _, -, -, -, -, -, hsource, -⟩ := hj
  rw [hsource]

/-- What the sources of a query and its links are, and that its columns belong to them. -/
structure Sourced (root : Entity) (chains : List (List String)) (q : Sql.Select) : Prop where
  sources : q.sources.map (·.occurrence) = .table root.name :: chains.map .joined
  columns : ∀ c ∈ q.columns, Placed root chains c.source
  links : ∀ r ∈ q.links, LinkScoped root chains r

theorem Placed.mem_sources {o : Occurrence} (h : Placed root chains o) :
    o ∈ Occurrence.table root.name :: chains.map .joined := by
  obtain ⟨chain, hc, rfl⟩ := h
  by_cases hnil : chain = []
  · subst hnil
    exact List.mem_cons_self
  · rw [occurrence_of_ne hnil]
    exact List.mem_cons_of_mem _ (List.mem_map_of_mem (hc.resolve_left hnil))

/-- A frame has the shape in which names rarely clash, and has a source for each of its columns. -/
theorem Sourced.frames {q : Sql.Select} (h : Sourced root chains q) (hd : chains.Nodup) :
    ∀ f ∈ q.frames, Occurrence.Framed root.name chains (f.sources.map (·.occurrence)) ∧
      ∀ c ∈ f.columns, ∃ x ∈ f.sources, x.occurrence = c.source := by
  intro f hf
  rcases List.mem_cons.1 hf with rfl | hf
  · refine ⟨?_, fun c hc => ?_⟩
    · rw [h.sources]
      exact Occurrence.framed hd (.inl rfl)
    · exact List.mem_map.1 (h.sources ▸ (h.columns c hc).mem_sources)
  · obtain ⟨r, hr, rfl⟩ := List.mem_map.1 hf
    obtain ⟨⟨chain, n, hsources⟩, hcolumns⟩ := h.links r hr
    refine ⟨?_, fun c hc => ?_⟩
    · rw [List.map_append, h.sources]
      exact Occurrence.framed hd (.inr ⟨chain, n, hsources⟩)
    · refine List.mem_map.1 ?_
      rw [List.map_append, List.mem_append, h.sources]
      exact (hcolumns c hc).imp_right Placed.mem_sources

theorem sourced_of_compileOver {p : Plan} {d : Dialect} {c : Compiled}
    (h : p.compileOver d s root = .ok c) {mentions : List String → Prop}
    (hclause : Clause s root mentions (joinedChains (p.chains s root)) c.select.joins) :
    Sourced root (joinedChains (p.chains s root)) c.select := by
  obtain ⟨columns, condition?, ordering, joins, hcolumns, -, hcondition, hordering, -, rfl⟩ :=
    Plan.compileOver_eq_ok h
  have hscoped : ∀ c, condition? = some c → Scoped root (joinedChains (p.chains s root)) c := by
    rintro c rfl
    rcases Plan.predicate_eq_ok hcondition with ⟨-, hnone⟩ | ⟨e, c, n, he, hc, hsome⟩
    · cases hnone
    · cases hsome
      refine scoped_condition 0 e c n hc fun path hp => covered_of_mem ?_
      simp only [Plan.chains, List.mem_append, List.mem_map, he]
      exact .inl (.inr ⟨path, hp, rfl⟩)
  refine ⟨?_, fun c hc => ?_, fun r hr => ?_⟩
  · exact congrArg (List.cons _) ((List.map_map).trans hclause.occurrences)
  · simp only [Sql.Select.columns, List.mem_append, List.mem_map, List.mem_flatMap,
      Option.mem_toList] at hc
    rcases hc with ((⟨output, hin, rfl⟩ | ⟨j, hj, hin⟩) | ⟨c', hc', hin⟩) | ⟨key, hin, rfl⟩
    · obtain ⟨pair, hpair, rfl⟩ := hin
      obtain ⟨path, hp, hcolumn⟩ := ((Outcome.mem_of_mapM hcolumns).2 _).1 (List.of_mem_zip hpair).1
      refine placed_of_outputColumn hcolumn fun hprojections => covered_of_mem ?_
      rw [Plan.outputs, hprojections] at hp
      simp only [Plan.chains, List.mem_append, List.mem_map]
      exact .inl (.inl (.inl ⟨path, hp, rfl⟩))
    · exact hclause.placed j hj c hin
    · exact (hscoped c' hc').columns c hin
    · obtain ⟨k, hk, hkey⟩ := ((Outcome.mem_of_mapM hordering).2 key).1 hin
      refine placed_of_sortKey hkey (covered_of_mem ?_)
      simp only [Plan.chains, List.mem_append, List.mem_map]
      exact .inr ⟨k, hk, rfl⟩
  · obtain ⟨c, hc, hin⟩ := List.mem_flatMap.1 hr
    exact (hscoped c (Option.mem_toList.1 hc)).links r hin

/-! ## Distinct names -/

theorem Sourced.distinct_iff {q : Sql.Select} (h : Sourced root chains q) (hd : chains.Nodup) :
    (∀ f ∈ q.frames, f.Distinct) ↔
      (∀ a ∈ chains, ∀ b ∈ chains, Occurrence.chainName a = Occurrence.chainName b → a = b) ∧
      ∀ f ∈ q.frames, ∀ x ∈ f.sources, x.occurrence.correlation? ≠ some root.name := by
  have hframe : ∀ f ∈ q.frames, f.Distinct ↔
      (∀ a ∈ chains, ∀ b ∈ chains, Occurrence.chainName a = Occurrence.chainName b → a = b) ∧
      ∀ x ∈ f.sources, x.occurrence.correlation? ≠ some root.name := by
    intro f hf
    have hnames := Occurrence.nodup_names_iff (h.frames hd f hf).1
    rwa [List.map_map, List.forall_mem_map] at hnames
  -- The query is the first of its frames, and settles for all of them which chains clash.
  constructor
  · intro hall
    exact ⟨((hframe _ List.mem_cons_self).1 (hall _ List.mem_cons_self)).1,
      fun f hf => ((hframe f hf).1 (hall f hf)).2⟩
  · rintro ⟨hglue, halias⟩ f hf
    exact (hframe f hf).2 ⟨hglue, halias f hf⟩

/-- The chains that a plan joins. -/
def Plan.Joins (s : Schema) (root : Entity) (p : Plan) (chain : List String) : Prop :=
  chain ≠ [] ∧ ∃ whole, p.Mentions s root whole ∧ chain <+: whole

/-- Names that clash in no query: a reference has no two underscores in a row, and an entity is not
called like a correlation name. -/
structure PlainlyNamed (s : Schema) : Prop where
  references : ∀ e ∈ s.entities, ∀ r ∈ e.references, ¬ ['_', '_'] <:+: r.name.toList
  entities : ∀ e ∈ s.entities, ∀ c ∈ ['j', 'm', 't'], ¬ [c, '_'] <+: e.name.toList

theorem Leads.exists_reference {e last : Entity} (he : e ∈ s.entities) {chain : List String}
    (h : Leads s e chain last) : ∀ name ∈ chain, ∃ owner ∈ s.entities, ∃ r ∈ owner.references,
      r.name = name := by
  induction h with
  | here => nofun
  | @onward e _ _ r _ reference declared _ _ ih =>
    intro name hname
    rcases List.mem_cons.1 hname with rfl | hname
    · exact ⟨e, he, r, (e.mem_references r).2 reference, rfl⟩
    · exact ih declared name hname

theorem separable_of_leads (hs : s.Sound) (hroot : root ∈ s.entities) (hn : PlainlyNamed s)
    {chain : List String} {last : Entity} (h : Leads s root chain last) :
    Occurrence.Separable (chain.map String.toList) := by
  intro name hname
  obtain ⟨name, hin, rfl⟩ := List.mem_map.1 hname
  obtain ⟨e, he, r, hr, rfl⟩ := h.exists_reference hroot name hin
  refine ⟨fun hhead => ?_, hn.references e he r hr⟩
  have hreserved := (hs.entities e he).references r hr
  rw [Entity.isReserved, Bool.or_eq_false_iff, String.startsWith_string_eq_false_iff] at hreserved
  obtain ⟨rest, hrest⟩ := List.head?_eq_some_iff.1 hhead
  exact hreserved.2 ⟨rest, by rw [hrest]; rfl⟩

theorem correlation?_ne (hroot : root ∈ s.entities) (hn : PlainlyNamed s) (o : Occurrence) :
    o.correlation? ≠ some root.name := by
  intro h
  have hplain := hn.entities root hroot
  cases o with
  | table name => cases h
  | joined chain =>
    have hname : (Occurrence.joined chain).name = root.name := Option.some.inj h
    rw [← hname, Occurrence.toList_name_joined] at hplain
    exact hplain 'j' (by simp) ⟨_, rfl⟩
  | link chain n =>
    have hname : (Occurrence.link chain n).name = root.name := Option.some.inj h
    rw [← hname, Occurrence.toList_name_link] at hplain
    exact hplain 'm' (by simp) ⟨_, rfl⟩
  | linked chain n =>
    have hname : (Occurrence.linked chain n).name = root.name := Option.some.inj h
    rw [← hname, Occurrence.toList_name_linked] at hplain
    exact hplain 't' (by simp) ⟨_, rfl⟩

theorem Plan.Joins.separable (hs : s.Sound) (hroot : root ∈ s.entities) (hn : PlainlyNamed s)
    {p : Plan} (h : p.Accepted s root) {chain : List String} (hj : p.Joins s root chain) :
    Occurrence.Separable (chain.map String.toList) := by
  obtain ⟨-, whole, hwhole, rest, rfl⟩ := hj
  obtain ⟨last, hlead⟩ := h.exists_leads hs hroot _ ((h.mem_chains hs hroot _).2 hwhole)
  obtain ⟨m, hbefore, -⟩ := hlead.split
  exact separable_of_leads hs hroot hn hbefore

/-- The names in each scope of a compiled query are distinct exactly if no two of its chains are
glued to one name and none of its correlation names is the name of the root. Where they are
distinct, each column denotes the source that it was compiled for; and plain names always are. -/
theorem Plan.distinct_frames_iff (hs : s.Valid) {p : Plan} {d : Dialect} {c : Compiled}
    (h : p.compile d s = .ok c) (hroot : s.entity? p.entity = some root) :
    ((∀ f ∈ c.select.frames, f.Distinct) ↔
      (∀ a b, p.Joins s root a → p.Joins s root b →
        Occurrence.chainName a = Occurrence.chainName b → a = b) ∧
      ∀ f ∈ c.select.frames, ∀ x ∈ f.sources, x.occurrence.correlation? ≠ some root.name) ∧
    (∀ f ∈ c.select.frames, f.Distinct → f.Denotes) ∧
    (PlainlyNamed s → ∀ f ∈ c.select.frames, f.Distinct) := by
  have hsound := (Schema.valid_iff_sound s).1 hs
  have hin : root ∈ s.entities := List.mem_of_find?_eq_some hroot
  obtain ⟨root', hroot', hover⟩ := compileOver_of_compile h
  obtain rfl : root' = root := Option.some.inj (hroot'.symm.trans hroot)
  have haccepted := accepted_of_compileOver hsound hin hover
  have hclause := clause_of_compileOver hsound hin hover
  have hsourced := sourced_of_compileOver hover hclause
  have hdistinct := hsourced.distinct_iff hclause.nodup
  refine ⟨hdistinct.trans (and_congr_left fun _ => ⟨fun hglue a b ha hb => ?_,
    fun hglue a ha b hb => ?_⟩), fun f hf hd => ?_, fun hn => ?_⟩
  · exact hglue a ((hclause.mem a).2 ha) b ((hclause.mem b).2 hb)
  · exact hglue a b ((hclause.mem a).1 ha) ((hclause.mem b).1 hb)
  · exact Frame.denotes_of_distinct hd (hsourced.frames hclause.nodup f hf).2
  · refine hdistinct.2 ⟨fun a ha b hb => ?_, fun f _ x _ => correlation?_ne hin hn x.occurrence⟩
    have hja := (hclause.mem a).1 ha
    have hjb := (hclause.mem b).1 hb
    exact Occurrence.chainName_inj (Plan.Joins.separable hsound hin hn haccepted hja)
      (Plan.Joins.separable hsound hin hn haccepted hjb) hja.1 hjb.1

/-- Posts in a blog with an owner, and with an owner of their own for the time in that blog. -/
def blogs : Schema where
  entities := [
    { name := "User", fields := [
        { name := "id", type := .bigint, primaryKey := true, auto := true }, { name := "name" }] },
    { name := "Blog", fields := [
        { name := "id", type := .bigint, primaryKey := true, auto := true }],
      relationships := [.single { name := "owner", target := "User" }] },
    { name := "Post", fields := [
        { name := "id", type := .bigint, primaryKey := true, auto := true }],
      relationships := [.single { name := "blog", target := "Blog" },
        .single { name := "blog__owner", target := "User" }] }]

def owners : Plan := ({ entity := "Post" } : Plan).select ["blog.owner.name", "blog__owner.name"]

/-- Both owners of a post are joined under one name. -/
theorem distinct_frames_iff_blogs :
    ∃ c, owners.compile .sqlite blogs = .ok c ∧ ¬ ∀ f ∈ c.select.frames, f.Distinct := by
  have hs : blogs.Valid := by decide +kernel
  obtain ⟨post, hpost⟩ : ∃ post, blogs.entity? "Post" = some post := ⟨_, rfl⟩
  have hresolve : ∀ path ∈ owners.projections, (resolve blogs post path).isOk = true := by
    obtain rfl := Option.some.inj (hpost.symm.trans rfl)
    decide +kernel
  have hcolumns : ∀ path ∈ owners.projections, ToColumn blogs post (Path.parts path) :=
    fun path hpath => (decides_resolve ((Schema.valid_iff_sound blogs).1 hs)
      (List.mem_of_find?_eq_some hpost) path).succeeds.1 (Outcome.exists_ok (hresolve path hpath))
  have haccepted : owners.Accepted blogs post := ⟨hcolumns, nofun, nofun, nofun⟩
  have htables : ∃ tables, Sql.Tables.ofSchema .sqlite blogs = .ok tables :=
    Outcome.exists_ok (by decide +kernel)
  obtain ⟨c, hc⟩ :=
    (Plan.exists_compile_iff (p := owners) hs nofun).2 ⟨htables, post, hpost, haccepted⟩
  refine ⟨c, hc, fun hdistinct => ?_⟩
  have hglue := ((Plan.distinct_frames_iff hs hc hpost).1.1 hdistinct).1
  have hjoins : ∀ path ∈ owners.projections, Path.chain path ≠ [] →
      owners.Joins blogs post (Path.chain path) :=
    fun path hpath hne => ⟨hne, _, .projection path hpath, List.prefix_refl _⟩
  have hsame := hglue _ _ (hjoins "blog.owner.name" (by decide +kernel) (by decide +kernel))
    (hjoins "blog__owner.name" (by decide +kernel) (by decide +kernel)) (by decide +kernel)
  exact absurd hsame (by decide +kernel)

end SchemaLedger.Query
