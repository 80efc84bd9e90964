import Mathlib.Data.List.Nodup
import Mathlib.Logic.Relation
import Mathlib.Data.List.Chain
import Mathlib.Data.Fintype.Card
import Mathlib.Data.Fintype.EquivFin
import Mathlib.Data.Fintype.Sets
import Mathlib.Order.WellFounded
import SchemaLedger.Migration.Sorter
import SchemaLedger.Proofs.Entries
import SchemaLedger.Proofs.Outcome

set_option autoImplicit false

/-!
# Sorting

A sorter that is built from names and their predecessors finds a circle exactly if there is one. If
there is none it comes to an end: it hands out each name once, after the predecessors of the name.
-/
namespace SchemaLedger.Sorter

variable {s t : Sorter} {name : String} {names : List String} {f : Node → Node}
  {adds : List (String × List String)}

/-! ## Nodes -/

theorem node_change (s : Sorter) (name : String) (f : Node → Node) (n : String) :
    (s.change name f).node n = if n = name then f (s.node name) else s.node n := by
  rw [node, change]
  dsimp only
  rw [Entries.get?_put]
  by_cases h : n = name
  · rw [if_pos h, if_pos h.symm]
    rfl
  · rw [if_neg h, if_neg (Ne.symm h)]
    rfl

theorem node_change_ne {n : String} (h : n ≠ name) : (s.change name f).node n = s.node n := by
  rw [node_change, if_neg h]

theorem names_change (h : name ∈ s.names) : (s.change name f).names = s.names :=
  Entries.map_fst_put h

theorem mem_names_change {n : String} : n ∈ (s.change name f).names ↔ n = name ∨ n ∈ s.names :=
  Entries.mem_map_fst_put

theorem nodup_change (h : s.names.Nodup) : (s.change name f).names.Nodup :=
  Entries.nodup_put h

/-! ## Building -/

/-- The names that a name waits for, as often as it does. -/
def predecessorsIn (adds : List (String × List String)) (name : String) : List String :=
  (adds.filter (·.1 = name)).flatMap (·.2)

/-- The names that wait for a name, as often as they do. -/
def successorsIn (adds : List (String × List String)) (name : String) : List String :=
  adds.flatMap fun a => List.replicate (a.2.count name) a.1

/-- Whether one name waits for the other. -/
def WaitsFor (adds : List (String × List String)) (v u : String) : Prop := u ∈ predecessorsIn adds v

/-- Whether a name is mentioned. -/
def Mentions (adds : List (String × List String)) (name : String) : Prop :=
  ∃ a ∈ adds, name = a.1 ∨ name ∈ a.2

theorem count_successorsIn (adds : List (String × List String)) (p n : String) :
    (successorsIn adds p).count n = (predecessorsIn adds n).count p := by
  induction adds with
  | nil => rfl
  | cons a rest ih =>
    rw [successorsIn] at ih ⊢
    rw [predecessorsIn] at ih ⊢
    rw [List.flatMap_cons, List.count_append, ih, List.count_replicate, List.filter_cons]
    split <;> simp_all

theorem mem_successorsIn (p n : String) :
    n ∈ successorsIn adds p ↔ p ∈ predecessorsIn adds n := by
  rw [← List.count_pos_iff, count_successorsIn, List.count_pos_iff]

theorem mem_predecessorsIn (p n : String) :
    p ∈ predecessorsIn adds n ↔ ∃ a ∈ adds, a.1 = n ∧ p ∈ a.2 := by
  simp [predecessorsIn, List.mem_flatMap, and_assoc]

theorem Mentions.of_predecessor {p n : String} (h : p ∈ predecessorsIn adds n) :
    Mentions adds p := by
  obtain ⟨a, ha, -, hp⟩ := (mem_predecessorsIn p n).1 h
  exact ⟨a, ha, Or.inr hp⟩

theorem Mentions.of_successor {p n : String} (h : n ∈ successorsIn adds p) : Mentions adds n := by
  obtain ⟨a, ha, hn, -⟩ := (mem_predecessorsIn p n).1 ((mem_successorsIn p n).1 h)
  exact ⟨a, ha, Or.inl hn.symm⟩

/-- What a sorter holds before it is prepared. -/
structure Built (adds : List (String × List String)) (s : Sorter) : Prop where
  distinct : s.names.Nodup
  mem_names : ∀ n, n ∈ s.names ↔ Mentions adds n
  waiting : ∀ n, (s.node n).waiting = (predecessorsIn adds n).length
  successors : ∀ n, (s.node n).successors = successorsIn adds n
  handedOut : s.handedOut = 0
  finished : s.finished = 0

/-- What a sorter holds after a name has been noted with some of its predecessors. -/
structure Noted (s : Sorter) (name : String) (predecessors : List String) (t : Sorter) : Prop where
  distinct : s.names.Nodup → t.names.Nodup
  mem_names : ∀ n, n ∈ t.names ↔ n ∈ predecessors ∨ n ∈ s.names
  waiting : ∀ n, (t.node n).waiting = (s.node n).waiting
  successors : ∀ n, (t.node n).successors =
    (s.node n).successors ++ List.replicate (predecessors.count n) name
  handedOut : t.handedOut = s.handedOut
  finished : t.finished = s.finished

theorem noted_follows (name : String) (predecessors : List String) (s : Sorter) :
    Noted s name predecessors (predecessors.foldl (follow · name) s) := by
  induction predecessors generalizing s with
  | nil => exact ⟨id, by simp, by simp, by simp, rfl, rfl⟩
  | cons p rest ih =>
    have h := ih (s.follow name p)
    refine ⟨fun hd => h.distinct (nodup_change hd), fun n => ?_, fun n => ?_, fun n => ?_,
      h.handedOut, h.finished⟩
    · rw [List.foldl_cons, h.mem_names, follow, mem_names_change, List.mem_cons]
      exact or_left_comm.trans or_assoc.symm
    · rw [List.foldl_cons, h.waiting, follow, node_change]
      split
      case isTrue hn => rw [hn]
      case isFalse => rfl
    · rw [List.foldl_cons, h.successors, follow, node_change, List.count_cons]
      split
      case isTrue hn => simp [hn, List.replicate_succ]
      case isFalse hn => simp [Ne.symm hn]

theorem built_add (h : Built adds s) (a : String × List String) :
    Built (adds ++ [a]) (s.add a.1 a.2) := by
  have hn := noted_follows a.1 a.2
    (s.change a.1 fun n => { n with waiting := n.waiting + a.2.length })
  refine ⟨hn.distinct (nodup_change h.distinct), fun n => ?_, fun n => ?_, fun n => ?_,
    hn.handedOut.trans h.handedOut, hn.finished.trans h.finished⟩
  · rw [add, hn.mem_names, mem_names_change, h.mem_names]
    simp only [Mentions, List.mem_append, List.mem_singleton, or_and_right, exists_or,
      exists_eq_left]
    grind
  · rw [add, hn.waiting, node_change, predecessorsIn, List.filter_append, List.flatMap_append,
      List.length_append, ← predecessorsIn]
    split
    case isTrue heq => simp [heq, h.waiting]
    case isFalse hne => simp [Ne.symm hne, h.waiting]
  · rw [add, hn.successors, node_change, successorsIn, List.flatMap_append, ← successorsIn]
    split
    case isTrue heq => simp [heq, h.successors]
    case isFalse hne => simp [h.successors]

theorem built_ofPredecessors (adds : List (String × List String)) :
    Built adds (ofPredecessors adds) := by
  induction adds using List.reverseRecOn with
  | nil => exact ⟨List.nodup_nil, by simp [ofPredecessors, names, Mentions], fun _ => rfl,
      fun _ => rfl, rfl, rfl⟩
  | append_singleton rest a ih =>
    rw [ofPredecessors, List.foldl_append]
    exact built_add ih a

/-! ## Circles -/

/-- Whether a name is among the successors of the other. -/
def Follows (s : Sorter) (v u : String) : Prop := v ∈ (s.node u).successors

/-- Chains of successors from a name end. -/
def Settled (s : Sorter) (name : String) : Prop := Acc s.Follows name

/-- A way along successors that comes back to where it started. -/
structure Circle (s : Sorter) (path : List String) : Prop where
  chain : path.IsChain fun u v => s.Follows v u
  closed : path.head? = path.getLast?
  proper : 2 ≤ path.length

theorem Settled.not_recurring {u : String} (h : s.Settled u) :
    ¬ Relation.TransGen s.Follows u u := by
  have hchains : Acc (Relation.TransGen s.Follows) u := Acc.transGen h
  clear h
  induction hchains with
  | intro u _ ih => exact fun hc => ih u hc hc

theorem transGen_of_chain {r : String → String → Prop} (u : String) (way : List String)
    (v : String) (h : (u :: (way ++ [v])).IsChain fun a b => r b a) : Relation.TransGen r v u := by
  induction way generalizing u with
  | nil => exact .single (List.isChain_cons_cons.1 h).1
  | cons w rest ih =>
    obtain ⟨hw, hrest⟩ := List.isChain_cons_cons.1 h
    exact (ih w hrest).tail hw

theorem Circle.recurring {path : List String} (h : s.Circle path) :
    ∃ u, Relation.TransGen s.Follows u u := by
  obtain ⟨hchain, hclosed, hproper⟩ := h
  match path with
  | [] => simp at hproper
  | u :: rest =>
    obtain rfl | ⟨way, v, rfl⟩ := List.eq_nil_or_concat' rest
    · simp at hproper
    · obtain rfl : u = v := by
        rw [← List.cons_append, List.getLast?_concat] at hclosed
        exact Option.some.inj hclosed
      exact ⟨u, transGen_of_chain u way u hchain⟩

/-- What a search has found out when it comes back without a circle. -/
structure Explored (s : Sorter) (trail seen visited out : List String) : Prop where
  kept : seen ⊆ out
  fresh : ∀ v ∈ visited, v ∉ trail
  visited : visited ⊆ out
  settled : ∀ u ∈ out, u ∉ trail → s.Settled u

theorem explored_foldlM {fuel : Nat} {trail : List String}
    (hstep : ∀ seen v out, explore s fuel trail seen v = .ok out → trail ⊆ seen →
      (∀ u ∈ seen, u ∉ trail → s.Settled u) → Explored s trail seen [v] out)
    (vs seen out : List String) (h : vs.foldlM (explore s fuel trail) seen = .ok out)
    (ht : trail ⊆ seen) (hs : ∀ u ∈ seen, u ∉ trail → s.Settled u) :
    Explored s trail seen vs out := by
  induction vs generalizing seen with
  | nil =>
    obtain rfl := Except.ok.inj h
    exact ⟨fun _ => id, by simp, by simp, hs⟩
  | cons v rest ih =>
    rw [List.foldlM_cons, Outcome.bind_eq_ok] at h
    obtain ⟨mid, hv, h⟩ := h
    have hone := hstep seen v mid hv ht hs
    have hrest := ih mid h (fun u hu => hone.kept (ht hu)) hone.settled
    refine ⟨fun u hu => hrest.kept (hone.kept hu), ?_, ?_, hrest.settled⟩
    · exact List.forall_mem_cons.2 ⟨hone.fresh v List.mem_cons_self, hrest.fresh⟩
    · exact List.cons_subset.2 ⟨hrest.kept (hone.visited List.mem_cons_self), hrest.visited⟩

/-- A search that comes back settles all it has seen. -/
theorem explored_explore (fuel : Nat) :
    ∀ (trail seen : List String) (node : String) (out : List String),
      explore s fuel trail seen node = .ok out → trail ⊆ seen →
      (∀ u ∈ seen, u ∉ trail → s.Settled u) → Explored s trail seen [node] out := by
  induction fuel with
  | zero => nofun
  | succ fuel ih =>
    intro trail seen node out h ht hs
    rw [explore] at h
    by_cases hseen : node ∈ seen
    · rw [if_pos hseen] at h
      by_cases htrail : node ∈ trail
      · simp [htrail] at h
      · rw [if_neg htrail] at h
        obtain rfl := Except.ok.inj h
        exact ⟨fun _ => id, by simpa using htrail, by simpa using hseen, hs⟩
    · rw [if_neg hseen] at h
      have hnt : node ∉ trail := fun hc => hseen (ht hc)
      have hall := explored_foldlM (ih (node :: trail) · · ·) _ (node :: seen) out h
        (List.cons_subset_cons node ht) ?_
      · -- No successor of `node` is left on the trail, so each is settled, and `node` with them.
        have hself : s.Settled node := Acc.intro node fun v hv =>
          hall.settled v (hall.visited hv) (hall.fresh v hv)
        refine ⟨fun u hu => hall.kept (List.mem_cons_of_mem node hu), by simpa using hnt, ?_, ?_⟩
        · exact List.cons_subset.2 ⟨hall.kept List.mem_cons_self, List.nil_subset _⟩
        · intro u hu hut
          by_cases hun : u = node
          · exact hun ▸ hself
          · exact hall.settled u hu (by simp [hun, hut])
      · intro u hu hut
        rw [List.mem_cons, not_or] at hut
        exact hs u ((List.mem_cons.1 hu).resolve_left hut.1) hut.2

theorem seen_subset_foldlM {step : List String → String → Except (List String) (List String)}
    (hstep : ∀ seen v out, step seen v = .ok out → seen ⊆ out) (vs seen out : List String)
    (h : vs.foldlM step seen = .ok out) : seen ⊆ out := by
  induction vs generalizing seen with
  | nil =>
    obtain rfl := Except.ok.inj h
    exact fun _ => id
  | cons v rest ih =>
    rw [List.foldlM_cons, Outcome.bind_eq_ok] at h
    obtain ⟨mid, hv, h⟩ := h
    exact List.Subset.trans (hstep seen v mid hv) (ih mid h)

theorem seen_subset_explore (fuel : Nat) :
    ∀ (trail seen : List String) (node : String) (out : List String),
      explore s fuel trail seen node = .ok out → seen ⊆ out := by
  induction fuel with
  | zero => nofun
  | succ fuel ih =>
    intro trail seen node out h
    rw [explore] at h
    split at h
    · split at h
      · cases h
      · obtain rfl := Except.ok.inj h
        exact fun _ => id
    · exact fun u hu => seen_subset_foldlM (ih (node :: trail)) _ _ out h
        (List.mem_cons_of_mem node hu)

theorem exists_dropWhile_ne {l : List String} (h : name ∈ l) :
    ∃ front back, l = front ++ name :: back ∧ l.dropWhile (· ≠ name) = name :: back := by
  induction l with
  | nil => cases h
  | cons x rest ih =>
    by_cases hx : x = name
    · exact ⟨[], rest, by simp [hx], by simp [hx]⟩
    · obtain ⟨front, back, hrest, hdrop⟩ := ih ((List.mem_cons.1 h).resolve_left (Ne.symm hx))
      refine ⟨x :: front, back, by rw [hrest]; rfl, ?_⟩
      rw [List.dropWhile_cons_of_pos (by simpa using hx), hdrop]

/-- What a search shows that fails: the trail goes on to the name where it closes. The trail holds
different names, so the fuel, one more than there are names, does not run out. -/
theorem circle_explore (hnames : ∀ u v, s.Follows v u → v ∈ s.names) (fuel : Nat) :
    ∀ (trail seen : List String) (node : String) (path : List String),
      explore s fuel trail seen node = .error path → trail.Nodup → trail ⊆ seen →
      trail ⊆ s.names → node ∈ s.names → s.names.length < fuel + trail.length →
      (trail.reverse ++ [node]).IsChain (fun u v => s.Follows v u) → s.Circle path := by
  induction fuel with
  | zero =>
    intro trail seen node path _ hd _ hsub _ hlen
    have hle := hd.length_le_of_subset hsub
    omega
  | succ fuel ih =>
    intro trail seen node path h hd ht hsub hnode hlen hchain
    rw [explore] at h
    split at h
    case isTrue hseen =>
      split at h
      case isFalse => cases h
      case isTrue htrail =>
        obtain rfl := Except.error.inj h
        obtain ⟨front, back, hsplit, hdrop⟩ := exists_dropWhile_ne (List.mem_reverse.2 htrail)
        rw [hdrop]
        rw [hsplit, List.append_assoc] at hchain
        refine ⟨hchain.right_of_append, ?_, by simp⟩
        rw [List.getLast?_concat]
        rfl
    case isFalse hseen =>
      have hnt : node ∉ trail := fun hc => hseen (ht hc)
      obtain ⟨v, hv, mid, hmid, herror⟩ := Outcome.foldlM_error (P := (node :: trail ⊆ ·))
        (fun seen v out hin hok => List.Subset.trans hin (seen_subset_explore _ _ _ _ _ hok))
        (List.cons_subset_cons node ht) h
      refine ih (node :: trail) mid v path herror (List.nodup_cons.2 ⟨hnt, hd⟩) hmid
        (List.cons_subset.2 ⟨hnode, hsub⟩) (hnames node v hv)
        (by rw [List.length_cons]; omega) ?_
      rw [List.reverse_cons]
      exact hchain.append (List.isChain_singleton v) (by simpa [Follows] using hv)

/-- A search through all names that fails shows a circle. -/
theorem circle_search (hnames : ∀ u v, s.Follows v u → v ∈ s.names) {path : List String}
    (h : s.search = .error path) : s.Circle path := by
  obtain ⟨v, hv, seen, -, herror⟩ :=
    Outcome.foldlM_error (P := fun _ => True) (fun _ _ _ _ _ => trivial) trivial h
  exact circle_explore hnames _ [] seen v path herror List.nodup_nil (List.nil_subset _)
    (List.nil_subset _) hv (by simp) (List.isChain_singleton v)

/-- It comes back exactly if no names wait for each other. -/
theorem search_iff (hnames : ∀ u v, s.Follows v u → v ∈ s.names) :
    (∃ out, s.search = .ok out) ↔ ∀ u, ¬ Relation.TransGen s.Follows u u := by
  constructor
  · rintro ⟨out, hout⟩ u hu
    have hall := explored_foldlM (explored_explore _ []) s.names [] out hout (List.nil_subset _)
      (by simp)
    obtain ⟨v, hv, -⟩ := Relation.TransGen.head'_iff.1 hu
    exact (hall.settled u (hall.visited (hnames v u hv)) (by simp)).not_recurring hu
  · intro hacyclic
    cases h : s.search with
    | ok out => exact ⟨out, rfl⟩
    | error path =>
      obtain ⟨u, hu⟩ := (circle_search hnames h).recurring
      exact absurd hu (hacyclic u)

/-! ## Progress -/

theorem node_of_nodes (h : t.nodes = s.nodes) (n : String) : t.node n = s.node n := by
  rw [node, node, h]

theorem nodes_release (s : Sorter) (name : String) : (s.release name).nodes =
    (s.change name fun n => { n with waiting := (s.node name).waiting - 1 }).nodes := by
  rw [release]
  split <;> rfl

theorem ready_release (s : Sorter) (name : String) : (s.release name).ready =
    s.ready ++ if (s.node name).waiting - 1 = 0 then [name] else [] := by
  rw [release]
  split
  · rfl
  · exact (List.append_nil _).symm

theorem counts_release (s : Sorter) (name : String) :
    (s.release name).handedOut = s.handedOut ∧ (s.release name).finished = s.finished := by
  rw [release]
  split <;> exact ⟨rfl, rfl⟩

theorem waiting_release (s : Sorter) (name n : String) : ((s.release name).node n).waiting =
    (s.node n).waiting - if n = name then 1 else 0 := by
  rw [node_of_nodes (nodes_release s name), node_change]
  split
  case isTrue h => rw [h]
  case isFalse => exact (Int.sub_zero _).symm

theorem successors_release (s : Sorter) (name n : String) :
    ((s.release name).node n).successors = (s.node n).successors := by
  rw [node_of_nodes (nodes_release s name), node_change]
  split
  case isTrue h => rw [h]
  case isFalse => rfl

/-- What a sorter holds after some names have one predecessor less for each time they are listed. -/
structure Released (s : Sorter) (ms : List String) (t : Sorter) : Prop where
  names : t.names = s.names
  successors : ∀ n, (t.node n).successors = (s.node n).successors
  waiting : ∀ n, (t.node n).waiting = (s.node n).waiting - ms.count n
  ready : ∃ came : List String, t.ready = s.ready ++ came ∧ came.Nodup ∧
    ∀ n, n ∈ came ↔ n ∈ ms ∧ (s.node n).waiting = ms.count n
  handedOut : t.handedOut = s.handedOut
  finished : t.finished = s.finished

theorem released_foldl (ms : List String) (s : Sorter)
    (h : ∀ m ∈ ms, m ∈ s.names ∧ ms.count m ≤ (s.node m).waiting) :
    Released s ms (ms.foldl release s) := by
  induction ms generalizing s with
  | nil => exact ⟨rfl, fun _ => rfl, by simp, ⟨[], by simp⟩, rfl, rfl⟩
  | cons m rest ih =>
    obtain ⟨hm, hcount⟩ := h m List.mem_cons_self
    have hnames : (s.release m).names = s.names := by
      rw [Sorter.names, nodes_release]
      exact names_change hm
    have hrest := ih (s.release m) fun n hn => by
      obtain ⟨hin, hle⟩ := h n (List.mem_cons_of_mem m hn)
      rw [hnames, waiting_release]
      rw [List.count_cons] at hle
      exact ⟨hin, by grind⟩
    obtain ⟨came, hready, hdistinct, hcame⟩ := hrest.ready
    refine ⟨hrest.names.trans hnames, fun n => ?_, fun n => ?_, ?_,
      hrest.handedOut.trans (counts_release s m).1, hrest.finished.trans (counts_release s m).2⟩
    · exact (hrest.successors n).trans (successors_release s m n)
    · rw [List.foldl_cons, hrest.waiting, waiting_release, List.count_cons]
      grind
    · refine ⟨(if (s.node m).waiting - 1 = 0 then [m] else []) ++ came, ?_, ?_, fun n => ?_⟩
      · rw [List.foldl_cons, hready, ready_release, List.append_assoc]
      · -- A name that has come to the end of its count is not listed again.
        split
        case isTrue hzero =>
          refine List.nodup_cons.2 ⟨fun hin => ?_, hdistinct⟩
          have hpos := List.count_pos_iff.2 ((hcame m).1 hin).1
          rw [List.count_cons_self] at hcount
          omega
        case isFalse => exact hdistinct
      · rw [List.mem_append, hcame, waiting_release, List.mem_cons]
        by_cases hn : n = m
        · subst hn
          rw [List.count_cons_self] at hcount ⊢
          split
          case isTrue hzero =>
            simp only [List.mem_singleton, true_or, true_and, true_iff]
            omega
          case isFalse hpos =>
            simp only [List.not_mem_nil, false_or, true_or, true_and, if_true]
            rw [← List.count_pos_iff]
            omega
        · rw [List.count_cons_of_ne (Ne.symm hn), if_neg hn]
          split <;> simp [hn]

/-- What a sorter holds after a name is done. -/
structure Finished (s : Sorter) (name : String) (t : Sorter) : Prop where
  names : t.names = s.names
  successors : ∀ n, (t.node n).successors = (s.node n).successors
  waiting : ∀ n ≠ name,
    (t.node n).waiting = (s.node n).waiting - (s.node name).successors.count n
  ready : ∃ came : List String, t.ready = s.ready ++ came ∧ came.Nodup ∧ ∀ n, n ∈ came ↔
    n ∈ (s.node name).successors ∧ (s.node n).waiting = (s.node name).successors.count n
  handedOut : t.handedOut = s.handedOut
  finished : t.finished = s.finished + 1

theorem exists_finish? (hname : name ∈ s.names) (hout : (s.node name).waiting = isOut)
    (h : ∀ m ∈ (s.node name).successors, m ∈ s.names ∧ m ≠ name ∧
      (s.node name).successors.count m ≤ (s.node m).waiting) :
    ∃ t, s.finish? name = some t ∧ Finished s name t := by
  have hr := released_foldl (s.node name).successors
    (s.change name fun n => { n with waiting := isDone }) fun m hm => by
      obtain ⟨hin, hne, hcount⟩ := h m hm
      rw [names_change hname, node_change_ne hne]
      exact ⟨hin, hcount⟩
  obtain ⟨u, hu⟩ : ∃ u, u = (s.node name).successors.foldl release
    (s.change name fun n => { n with waiting := isDone }) := ⟨_, rfl⟩
  rw [← hu] at hr
  refine ⟨{ u with finished := u.finished + 1 }, by rw [finish?, if_pos hout, hu],
    hr.names.trans (names_change hname), fun n => ?_, fun n hn => ?_, ?_, hr.handedOut,
    congrArg (· + 1) hr.finished⟩
  · refine (hr.successors n).trans ?_
    rw [node_change]
    split
    case isTrue heq => rw [heq]
    case isFalse => rfl
  · refine (hr.waiting n).trans ?_
    rw [node_change_ne hn]
  · obtain ⟨came, hready, hdistinct, hcame⟩ := hr.ready
    refine ⟨came, hready, hdistinct, fun n => (hcame n).trans (and_congr_right fun hn => ?_)⟩
    rw [node_change_ne (h n hn).2.1]

/-- The sorter `s` when the names `fin` are done, in this order, and the names `out` are handed out. -/
structure Tracks (adds : List (String × List String)) (fin out : List String) (s : Sorter) :
    Prop where
  names : s.names = (ofPredecessors adds).names
  successors : ∀ n, (s.node n).successors = successorsIn adds n
  distinct : (fin ++ out).Nodup
  known : ∀ n ∈ fin ++ out, Mentions adds n
  /-- Who is handed out waits for none but those who are done. -/
  free : ∀ n ∈ fin ++ out, predecessorsIn adds n ⊆ fin
  handed : ∀ n ∈ out, (s.node n).waiting = isOut
  waiting : ∀ n, Mentions adds n → n ∉ fin ++ out →
    (s.node n).waiting = (predecessorsIn adds n).countP (· ∉ fin)
  distinct_ready : s.ready.Nodup
  mem_ready : ∀ n, n ∈ s.ready ↔ Mentions adds n ∧ n ∉ fin ++ out ∧ predecessorsIn adds n ⊆ fin
  handedOut : s.handedOut = fin.length + out.length
  finished : s.finished = fin.length

theorem mem_names : name ∈ (ofPredecessors adds).names ↔ Mentions adds name :=
  (built_ofPredecessors adds).mem_names name

variable {fin out batch rest : List String}

theorem Tracks.known_names (h : Tracks adds fin out s) {n : String} (hn : Mentions adds n) :
    n ∈ s.names := by
  rw [h.names]
  exact mem_names.2 hn

theorem Tracks.perm (h : Tracks adds fin out s) (hp : out.Perm batch) : Tracks adds fin batch s where
  names := h.names
  successors := h.successors
  distinct := (hp.append_left fin).nodup_iff.1 h.distinct
  known := fun n hn => h.known n ((hp.append_left fin).mem_iff.2 hn)
  free := fun n hn => h.free n ((hp.append_left fin).mem_iff.2 hn)
  handed := fun n hn => h.handed n (hp.mem_iff.2 hn)
  waiting := fun n hm hn => h.waiting n hm fun hin => hn ((hp.append_left fin).mem_iff.1 hin)
  distinct_ready := h.distinct_ready
  mem_ready := fun n => by rw [h.mem_ready, (hp.append_left fin).mem_iff]
  handedOut := by rw [h.handedOut, hp.length_eq]
  finished := h.finished

theorem countP_notMem {x : String} (hx : x ∉ fin) (l : List String) :
    l.countP (· ∉ fin) = l.countP (· ∉ fin ++ [x]) + l.count x := by
  induction l with
  | nil => rfl
  | cons y rest ih =>
    rw [List.countP_cons, List.countP_cons, List.count_cons, ih]
    by_cases hy : y = x
    · simp [hy, hx]
      omega
    · simp [hy]
      omega

theorem countP_notMem_eq_zero {l : List String} : l.countP (· ∉ fin) = 0 ↔ l ⊆ fin := by
  rw [List.countP_eq_zero]
  simp [List.subset_def]

/-- What waits for a name that is handed out is neither done nor handed out. -/
theorem Tracks.notMem_of_waits (h : Tracks adds fin (name :: out) s) {n : String}
    (hn : name ∈ predecessorsIn adds n) : n ∉ fin ++ name :: out := fun hin =>
  List.disjoint_of_nodup_append h.distinct (h.free n hin hn) List.mem_cons_self

/-- A count with the name handed out taken apart from the others. -/
theorem Tracks.waiting_eq (h : Tracks adds fin (name :: out) s) {n : String}
    (hm : Mentions adds n) (hn : n ∉ fin ++ name :: out) :
    (s.node n).waiting = (predecessorsIn adds n).countP (· ∉ fin ++ [name]) +
      (successorsIn adds name).count n := by
  have hname : name ∉ fin := fun hin =>
    List.disjoint_of_nodup_append h.distinct hin List.mem_cons_self
  rw [h.waiting n hm hn, countP_notMem hname, count_successorsIn]
  rfl

/-- Who is ready when a name is done: those who were before, and those who waited for it alone. -/
theorem Tracks.mem_ready_or_waits (h : Tracks adds fin (name :: out) s) (n : String) :
    n ∈ s.ready ∨ n ∈ successorsIn adds name ∧
        (s.node n).waiting = (successorsIn adds name).count n ↔
      Mentions adds n ∧ n ∉ fin ++ name :: out ∧ predecessorsIn adds n ⊆ fin ++ [name] := by
  rw [h.mem_ready, mem_successorsIn]
  constructor
  · rintro (⟨hm, hn, hsub⟩ | ⟨hpred, hcount⟩)
    · exact ⟨hm, hn, fun p hp => List.mem_append_left _ (hsub hp)⟩
    · have hm := Mentions.of_successor ((mem_successorsIn name n).2 hpred)
      have hn := h.notMem_of_waits hpred
      rw [h.waiting_eq hm hn] at hcount
      exact ⟨hm, hn, countP_notMem_eq_zero.1 (by omega)⟩
  · rintro ⟨hm, hn, hsub⟩
    by_cases hpred : name ∈ predecessorsIn adds n
    · refine Or.inr ⟨hpred, ?_⟩
      rw [h.waiting_eq hm hn, countP_notMem_eq_zero.2 hsub]
      simp
    · refine Or.inl ⟨hm, hn, fun p hp => ?_⟩
      have hcase := List.mem_append.1 (hsub hp)
      exact hcase.resolve_right fun hc => hpred (List.mem_singleton.1 hc ▸ hp)

/-- Marking a name as done that was handed out: its successors wait for one less. -/
theorem Tracks.finish? (h : Tracks adds fin (name :: out) s) :
    ∃ t, s.finish? name = some t ∧ Tracks adds (fin ++ [name]) out t := by
  have hlist : fin ++ [name] ++ out = fin ++ name :: out := by simp
  have hother : ∀ n, n ∉ fin ++ name :: out → n ≠ name := fun n hn heq => hn (by simp [heq])
  have hlater : ∀ m, m ∈ successorsIn adds name → m ∉ fin ++ name :: out := fun m hm =>
    h.notMem_of_waits ((mem_successorsIn name m).1 hm)
  obtain ⟨t, ht, hf⟩ := exists_finish? (h.known_names (h.known name (by simp)))
    (h.handed name List.mem_cons_self) fun m hm => by
      rw [h.successors] at hm ⊢
      have hmentioned := Mentions.of_successor hm
      refine ⟨h.known_names hmentioned, hother m (hlater m hm), ?_⟩
      rw [h.waiting_eq hmentioned (hlater m hm)]
      omega
  obtain ⟨came, hready, hdistinct, hcame⟩ := hf.ready
  rw [h.successors] at hcame
  refine ⟨t, ht,
    { names := hf.names.trans h.names
      successors := fun n => (hf.successors n).trans (h.successors n)
      distinct := hlist ▸ h.distinct
      known := hlist ▸ h.known
      free := fun n hn p hp => List.mem_append_left _ (h.free n (hlist ▸ hn) hp)
      handed := fun n hn => ?_
      waiting := fun n hm hn => ?_
      distinct_ready := ?_
      mem_ready := fun n => ?_
      handedOut := by rw [hf.handedOut, h.handedOut]; simp; omega
      finished := by rw [hf.finished, h.finished]; simp }⟩
  · have hne : n ≠ name := fun heq => (List.nodup_cons.1 h.distinct.of_append_right).1 (heq ▸ hn)
    have hnone : (successorsIn adds name).count n = 0 := List.count_eq_zero.2 fun hc =>
      hlater n hc (by simp [hn])
    rw [hf.waiting n hne, h.handed n (List.mem_cons_of_mem name hn), h.successors, hnone]
    rfl
  · rw [hlist] at hn
    rw [hf.waiting n (hother n hn), h.waiting_eq hm hn, h.successors]
    omega
  · rw [hready]
    refine List.nodup_append'.2 ⟨h.distinct_ready, hdistinct, fun n hn hc => ?_⟩
    have hsub := ((h.mem_ready n).1 hn).2.2 ((mem_successorsIn name n).1 ((hcame n).1 hc).1)
    exact List.disjoint_of_nodup_append h.distinct hsub List.mem_cons_self
  · rw [hready, List.mem_append, hcame, hlist, h.mem_ready_or_waits]

/-- Marking all names of a batch as done. -/
theorem Tracks.finish_batch (h : Tracks adds fin batch s) :
    ∃ t, batch.foldlM Sorter.finish? s = some t ∧ Tracks adds (fin ++ batch) [] t := by
  induction batch generalizing fin s with
  | nil => exact ⟨s, rfl, by rwa [List.append_nil]⟩
  | cons name rest ih =>
    obtain ⟨t, ht, htracks⟩ := h.finish?
    obtain ⟨u, hu, hutracks⟩ := ih htracks
    refine ⟨u, by rw [List.foldlM_cons, ht]; exact hu, ?_⟩
    rwa [List.append_assoc] at hutracks

theorem handed_foldl (ns : List String) (s : Sorter) (hin : ns ⊆ s.names) :
    let t := ns.foldl (fun s name => s.change name fun n => { n with waiting := isOut }) s
    t.names = s.names ∧ t.finished = s.finished ∧
      ∀ n, (t.node n).successors = (s.node n).successors ∧
        (t.node n).waiting = if n ∈ ns then isOut else (s.node n).waiting := by
  induction ns generalizing s with
  | nil => exact ⟨rfl, rfl, fun n => ⟨rfl, rfl⟩⟩
  | cons m rest ih =>
    obtain ⟨hm, hrest⟩ := List.cons_subset.1 hin
    have hnames : (s.change m fun n => { n with waiting := isOut }).names = s.names :=
      names_change hm
    obtain ⟨hfixed, hfinished, hnodes⟩ :=
      ih (s.change m fun n => { n with waiting := isOut }) (hnames ▸ hrest)
    refine ⟨hfixed.trans hnames, hfinished, fun n => ?_⟩
    obtain ⟨hsuccessors, hwaiting⟩ := hnodes n
    rw [List.foldl_cons, hsuccessors, hwaiting, node_change]
    grind

/-- Handing out the names that are ready. -/
theorem Tracks.handOut (h : Tracks adds fin [] s) : Tracks adds fin s.ready s.handOut := by
  have hready : ∀ n ∈ s.ready, Mentions adds n ∧ n ∉ fin ∧ predecessorsIn adds n ⊆ fin := by
    intro n hn
    simpa using (h.mem_ready n).1 hn
  obtain ⟨hnames, hfinished, hnodes⟩ :=
    handed_foldl s.ready s fun n hn => h.known_names (hready n hn).1
  refine
    { names := hnames.trans h.names
      successors := fun n => (hnodes n).1.trans (h.successors n)
      distinct := ?_
      known := fun n hn => (List.mem_append.1 hn).elim (fun hf => h.known n (by simpa using hf))
        fun hr => (hready n hr).1
      free := fun n hn => (List.mem_append.1 hn).elim (fun hf => h.free n (by simpa using hf))
        fun hr => (hready n hr).2.2
      handed := fun n hn => (hnodes n).2.trans (if_pos hn)
      waiting := fun n hm hn => ?_
      distinct_ready := List.nodup_nil
      mem_ready := fun n => ?_
      handedOut := by rw [Sorter.handOut, h.handedOut]; simp
      finished := hfinished.trans h.finished }
  · refine List.nodup_append'.2 ⟨h.distinct.of_append_left, h.distinct_ready, fun n hn hr => ?_⟩
    exact (hready n hr).2.1 hn
  · rw [List.mem_append, not_or] at hn
    exact (hnodes n).2.trans ((if_neg hn.2).trans (h.waiting n hm (by simpa using hn.1)))
  · constructor
    · nofun
    · rintro ⟨hm, hn, hsub⟩
      rw [List.mem_append, not_or] at hn
      exact absurd ((h.mem_ready n).2 ⟨hm, by simpa using hn.1, hsub⟩) hn.2

theorem Tracks.isActive (h : Tracks adds fin [] s) : s.isActive = !s.ready.isEmpty := by
  rw [Sorter.isActive, h.handedOut, h.finished]
  simp

/-- Names that each come after those they wait for, some of which have been placed before. -/
def InOrder (adds : List (String × List String)) (placed rest : List String) : Prop :=
  ∀ before n after, rest = before ++ n :: after → predecessorsIn adds n ⊆ placed ++ before

theorem InOrder.append (hb : ∀ n ∈ batch, predecessorsIn adds n ⊆ fin)
    (hr : InOrder adds (fin ++ batch) rest) : InOrder adds fin (batch ++ rest) := by
  intro before n after hsplit p hp
  rcases List.append_eq_append_iff.1 hsplit with ⟨middle, rfl, hmiddle⟩ | ⟨middle, rfl, hmiddle⟩
  · have hin := hr middle n after hmiddle hp
    rwa [List.append_assoc] at hin
  · cases middle with
    | nil =>
      have hin := hr [] n after (by simpa using hmiddle.symm) hp
      simpa using hin
    | cons m middle =>
      obtain ⟨rfl, -⟩ := List.cons.inj hmiddle
      exact List.mem_append_left _ (hb n (by simp) hp)

/-- If no names wait for each other, all are done once none is ready. -/
theorem Tracks.complete (h : Tracks adds fin [] s)
    (ha : ∀ u, ¬ Relation.TransGen (WaitsFor adds) u u) (hready : s.ready = []) :
    ∀ n ∈ (ofPredecessors adds).names, n ∈ fin := by
  by_contra! hleft
  -- Among the names that are left, one waits for no other that is left: there are finitely many.
  let earlier := fun a b : { n // n ∈ (ofPredecessors adds).names } =>
    Relation.TransGen (WaitsFor adds) b.1 a.1
  have : IsTrans _ earlier := ⟨fun _ _ _ hab hbc => hbc.trans hab⟩
  have : Std.Irrefl earlier := ⟨fun a => ha a.1⟩
  have hwf : WellFounded earlier := Finite.wellFounded_of_trans_of_irrefl earlier
  obtain ⟨m, hm, hmleft⟩ := hleft
  obtain ⟨n, hn, hmin⟩ := hwf.has_min { n | n.1 ∉ fin } ⟨⟨m, hm⟩, hmleft⟩
  have hfree : predecessorsIn adds n.1 ⊆ fin := fun p hp => by
    by_contra hc
    exact hmin ⟨p, mem_names.2 (Mentions.of_predecessor hp)⟩ hc (.single hp)
  have hin := (h.mem_ready n.1).2 ⟨mem_names.1 n.2, by simpa using hn, hfree⟩
  rw [hready] at hin
  cases hin

theorem Tracks.perm_names (h : Tracks adds fin [] s) (hall : ∀ n ∈ (ofPredecessors adds).names, n ∈ fin) :
    fin.Perm (ofPredecessors adds).names := by
  refine (List.perm_ext_iff_of_nodup h.distinct.of_append_left
    (built_ofPredecessors adds).distinct).2 fun n => ⟨fun hn => ?_, hall n⟩
  exact mem_names.2 (h.known n (List.mem_append_left _ hn))

/-- The batches hold all names that were left, each after those it waits for. -/
theorem Tracks.drain? (ha : ∀ u, ¬ Relation.TransGen (WaitsFor adds) u u)
    {arrange : List String → List String} (harrange : ∀ ns, (arrange ns).Perm ns) (fuel : ℕ) :
    ∀ {fin : List String} {s : Sorter}, Tracks adds fin [] s →
      (ofPredecessors adds).names.length ≤ fuel + fin.length →
      ∃ rest, s.drain? arrange fuel = some rest ∧
        (fin ++ rest).Perm (ofPredecessors adds).names ∧ InOrder adds fin rest := by
  induction fuel with
  | zero =>
    intro fin s h hlen
    -- As many names are done as there are, so none is left.
    have hsub : fin.Subperm (ofPredecessors adds).names :=
      h.distinct.of_append_left.subperm fun n hn =>
        mem_names.2 (h.known n (List.mem_append_left _ hn))
    have hperm := hsub.perm_of_length_le (by omega)
    have hready : s.ready = [] := List.eq_nil_iff_forall_not_mem.2 fun n hn => by
      obtain ⟨hm, hleft, -⟩ := (h.mem_ready n).1 hn
      exact hleft (List.mem_append_left _ (hperm.mem_iff.2 (mem_names.2 hm)))
    refine ⟨[], by rw [Sorter.drain?, h.isActive, hready]; rfl, by rwa [List.append_nil], ?_⟩
    simp [InOrder]
  | succ fuel ih =>
    intro fin s h hlen
    by_cases hready : s.ready = []
    · refine ⟨[], by rw [Sorter.drain?, h.isActive, hready]; rfl, ?_, by simp [InOrder]⟩
      rw [List.append_nil]
      exact h.perm_names (h.complete ha hready)
    · have hbatch := h.handOut.perm (harrange s.ready).symm
      obtain ⟨t, ht, htracks⟩ := hbatch.finish_batch
      have hpos := List.length_pos_iff.2 hready
      have hsize := (harrange s.ready).length_eq
      obtain ⟨rest, hrest, hperm, horder⟩ := ih htracks (by rw [List.length_append]; omega)
      refine ⟨arrange s.ready ++ rest, ?_, by rwa [← List.append_assoc], ?_⟩
      · have hactive : s.isActive = true := by
          rw [h.isActive]
          simpa using hready
        rw [Sorter.drain?, if_pos hactive]
        dsimp only
        rw [ht]
        simp [hrest]
      · exact horder.append fun n hn => hbatch.free n (List.mem_append_right _ hn)

/-! ## Sorters of names and their predecessors -/

theorem follows_eq : (ofPredecessors adds).Follows = WaitsFor adds := by
  funext v u
  rw [Follows, (built_ofPredecessors adds).successors, mem_successorsIn]
  rfl

theorem names_of_follows (u v : String) (h : (ofPredecessors adds).Follows v u) :
    v ∈ (ofPredecessors adds).names := by
  rw [follows_eq] at h
  exact mem_names.2 (Mentions.of_successor ((mem_successorsIn u v).2 h))

theorem tracks_prepare {t : Sorter} (h : (ofPredecessors adds).prepare = .ok t) :
    Tracks adds [] [] t := by
  have hb := built_ofPredecessors adds
  rw [prepare, Outcome.bind_eq_ok] at h
  obtain ⟨-, -, h⟩ := h
  obtain rfl := Except.ok.inj h
  refine
    { names := rfl
      successors := hb.successors
      distinct := List.nodup_nil
      known := nofun
      free := nofun
      handed := nofun
      waiting := fun n _ _ => ?_
      distinct_ready := (hb.distinct.sublist (List.filter_sublist.map _))
      mem_ready := fun n => ?_
      handedOut := hb.handedOut
      finished := hb.finished }
  · exact (hb.waiting n).trans (by simp)
  · have hzero : (((ofPredecessors adds).node n).waiting = 0) ↔ predecessorsIn adds n ⊆ [] := by
      rw [hb.waiting, List.subset_nil, ← List.length_eq_zero_iff]
      exact Int.natCast_eq_zero
    rw [← hzero, ← mem_names, names, List.mem_map, List.mem_map]
    constructor
    · rintro ⟨x, hx, rfl⟩
      obtain ⟨hin, hwaiting⟩ := List.mem_filter.1 hx
      refine ⟨⟨x, hin, rfl⟩, List.not_mem_nil, ?_⟩
      rw [node, Entries.get?_of_mem hb.distinct hin]
      exact of_decide_eq_true hwaiting
    · rintro ⟨⟨x, hin, rfl⟩, -, hwaiting⟩
      rw [node, Entries.get?_of_mem hb.distinct hin] at hwaiting
      exact ⟨x, List.mem_filter.2 ⟨hin, decide_eq_true hwaiting⟩, rfl⟩

theorem prepare_eq_error {path : List String} :
    s.prepare = .error path ↔ s.search = .error path := by
  rw [prepare, Outcome.bind_eq_error]
  simp

/-- A sorter can be prepared exactly if no names wait for each other. -/
theorem prepare_iff : (∃ t, (ofPredecessors adds).prepare = .ok t) ↔
    ∀ u, ¬ Relation.TransGen (WaitsFor adds) u u := by
  rw [← follows_eq, ← search_iff names_of_follows, prepare]
  simp [Outcome.bind_eq_ok]

/-- Otherwise it shows a circle. -/
theorem circle_of_prepare {path : List String} (h : (ofPredecessors adds).prepare = .error path) :
    (ofPredecessors adds).Circle path :=
  circle_search names_of_follows (prepare_eq_error.1 h)

/-- A sorter that was prepared comes to an end. -/
theorem drain?_of_prepare {t : Sorter} (h : (ofPredecessors adds).prepare = .ok t)
    {arrange : List String → List String} (harrange : ∀ ns, (arrange ns).Perm ns) :
    ∃ ordered, t.drain? arrange t.nodes.length = some ordered ∧
      ordered.Perm (ofPredecessors adds).names ∧ InOrder adds [] ordered := by
  have htracks := tracks_prepare h
  have hlen : t.nodes.length = (ofPredecessors adds).names.length := by
    rw [← htracks.names, names, List.length_map]
  obtain ⟨ordered, hordered, hperm, horder⟩ :=
    htracks.drain? (prepare_iff.1 ⟨t, h⟩) harrange t.nodes.length (by simp [hlen])
  exact ⟨ordered, hordered, hperm, horder⟩

end SchemaLedger.Sorter
