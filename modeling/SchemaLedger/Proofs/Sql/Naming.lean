import SchemaLedger.Proofs.Migration.Targets
import SchemaLedger.Proofs.Sql.Replacement

set_option autoImplicit false

/-!
# Names in a database

Tables of entities and of relationships, the history table, the tables that SQLite builds to put in the
place of others, and the constraints on unique fields share one namespace. A valid schema keeps the first
two kinds apart. What else it takes is that no entity is named like the rest, and that no name of an
entity is glued to that of a field in two ways.
-/
namespace SchemaLedger

open Sql (uniqueConstraintName)
open Sql.Ddl (replacementName)

variable {d : Dialect} {s : Schema}

/-! ## Glued names -/

/-- Two texts with a mark between their parts are the same if the parts are, or if the part between the
two marks goes with either side. -/
theorem glued_eq_iff {mark : Char} {n m f g : List Char} :
    n ++ mark :: f = m ++ mark :: g ↔ (n = m ∧ f = g) ∨
      (∃ x, n = m ++ mark :: x ∧ g = x ++ mark :: f) ∨
        ∃ x, m = n ++ mark :: x ∧ f = x ++ mark :: g := by
  constructor
  · intro h
    rcases List.append_eq_append_iff.1 h with ⟨between, rfl, hrest⟩ | ⟨between, rfl, hrest⟩
    · cases between with
      | nil => exact .inl ⟨(List.append_nil n).symm, (List.cons.inj hrest).2⟩
      | cons c x =>
        obtain ⟨rfl, rfl⟩ := List.cons.inj hrest
        exact .inr (.inr ⟨x, rfl, rfl⟩)
    · cases between with
      | nil => exact .inl ⟨List.append_nil m, (List.cons.inj hrest).2.symm⟩
      | cons c x =>
        obtain ⟨rfl, rfl⟩ := List.cons.inj hrest
        exact .inr (.inl ⟨x, rfl, rfl⟩)
  · rintro (⟨rfl, rfl⟩ | ⟨x, rfl, rfl⟩ | ⟨x, rfl, rfl⟩) <;> simp

/-- Whether a part can move from the end of `n` to the front of `f`, leaving `m` and `g`. -/
def Overlaps (n f m g : String) : Prop := ∃ x, n = m ++ "_" ++ x ∧ g = x ++ "_" ++ f

theorem overlaps_iff (n f m g : String) : Overlaps n f m g ↔
    ∃ x, n.toList = m.toList ++ '_' :: x ∧ g.toList = x ++ '_' :: f.toList := by
  constructor
  · rintro ⟨x, rfl, rfl⟩
    exact ⟨x.toList, by simp, by simp⟩
  · rintro ⟨x, hn, hg⟩
    refine ⟨String.ofList x, String.toList_inj.1 ?_, String.toList_inj.1 ?_⟩
    · simpa using hn
    · simpa using hg

theorem uniqueConstraintName_eq_iff (n m f g : String) :
    uniqueConstraintName n f = uniqueConstraintName m g ↔
      (n = m ∧ f = g) ∨ Overlaps n f m g ∨ Overlaps m g n f := by
  have hlist : ∀ n f, (uniqueConstraintName n f).toList =
      "uq_".toList ++ (n.toList ++ '_' :: f.toList) := by
    intro n f
    simp [uniqueConstraintName, toString]
  rw [← String.toList_inj, hlist, hlist, List.append_cancel_left_eq, glued_eq_iff, overlaps_iff,
    overlaps_iff, String.toList_inj, String.toList_inj]

namespace Schema

/-! ## All names of a schema -/

/-- The columns of unique fields, each under the name of its entity. A key needs no constraint. -/
def uniqueColumns (s : Schema) : List (String × String) :=
  s.entities.flatMap fun e =>
    (e.fields.filter fun f => f.unique && !f.primaryKey).map fun f => (e.name, f.name)

def constraintNames (s : Schema) : List String :=
  s.uniqueColumns.map fun p => uniqueConstraintName p.1 p.2

/-- The names of all tables and constraints that a schema can give rise to, the history table among
them. -/
def physicalNames (s : Schema) : List String :=
  s.names ++ s.allJoinNames ++
    (HistoryTable.name :: (s.names.map replacementName ++ s.constraintNames))

/-- What a schema has to keep apart, beyond what is checked. -/
structure Unambiguous (s : Schema) : Prop where
  history : HistoryTable.name ∉ s.names
  replacements : ∀ n ∈ s.names, replacementName n ∉ s.names ∧ replacementName n ∉ s.allJoinNames
  constraints : ∀ c ∈ s.constraintNames, c ∉ s.names ∧ c ∉ s.allJoinNames
  columns : ∀ p ∈ s.uniqueColumns, ∀ q ∈ s.uniqueColumns, ¬ Overlaps p.1 p.2 q.1 q.2

theorem mem_uniqueColumns (s : Schema) (n f : String) : (n, f) ∈ s.uniqueColumns ↔
    ∃ g, s.Declares (.field n g) ∧ g.unique = true ∧ g.primaryKey = false ∧ g.name = f := by
  simp only [uniqueColumns, List.mem_flatMap, List.mem_map, List.mem_filter, Prod.mk.injEq,
    Bool.and_eq_true, Bool.not_eq_true']
  constructor
  · rintro ⟨e, he, g, ⟨hg, hu, hp⟩, rfl, rfl⟩
    exact ⟨g, declares_field_of_mem he hg, hu, hp, rfl⟩
  · rintro ⟨g, ⟨e, he, rfl, hg⟩, hu, hp, rfl⟩
    exact ⟨e, he, g, ⟨hg, hu, hp⟩, rfl, rfl⟩

theorem nodup_uniqueColumns (hs : s.Sound) : s.uniqueColumns.Nodup := by
  refine List.nodup_flatMap.2 ⟨fun e he => ?_, ?_⟩
  · refine List.Nodup.map_on (fun f hf g hg h => ?_)
      ((List.Nodup.of_map _ (hs.entities e he).fieldNames).filter _)
    exact Entity.field_eq_of_name_eq (hs.entities e he).fieldNames (List.mem_filter.1 hf).1
      (List.mem_filter.1 hg).1 (Prod.mk.inj h).2
  · refine (List.Nodup.of_map _ hs.distinct).pairwise_of_forall_ne fun e he g hg hne p hp hq => ?_
    obtain ⟨_, -, rfl⟩ := List.mem_map.1 hp
    obtain ⟨_, -, h⟩ := List.mem_map.1 hq
    exact hne (eq_of_name_eq hs.distinct he hg (Prod.mk.inj h).1.symm)

theorem nodup_constraintNames (hs : s.Sound) : s.constraintNames.Nodup ↔
    ∀ p ∈ s.uniqueColumns, ∀ q ∈ s.uniqueColumns, ¬ Overlaps p.1 p.2 q.1 q.2 := by
  rw [constraintNames, List.nodup_map_iff_inj_on (nodup_uniqueColumns hs)]
  constructor
  · -- Names that overlap are glued to one, so the pairs would be equal, which their lengths forbid.
    rintro h ⟨n, f⟩ hp ⟨m, g⟩ hq hover
    have heq := h _ hp _ hq ((uniqueConstraintName_eq_iff n m f g).2 (.inr (.inl hover)))
    obtain ⟨rfl, rfl⟩ := Prod.mk.inj heq
    obtain ⟨x, hx, -⟩ := hover
    have hlength : n.length = (n ++ "_" ++ x).length := congrArg String.length hx
    have hmark : "_".length = 1 := rfl
    rw [String.length_append, String.length_append] at hlength
    omega
  · rintro h ⟨n, f⟩ hp ⟨m, g⟩ hq heq
    rcases (uniqueConstraintName_eq_iff n m f g).1 heq with ⟨rfl, rfl⟩ | hover | hover
    · rfl
    · exact absurd hover (h _ hp _ hq)
    · exact absurd hover (h _ hq _ hp)

theorem constraintName_ne_replacementName (n m f : String) :
    replacementName n ≠ uniqueConstraintName m f := by
  intro h
  have hhead := congrArg (fun s : String => s.toList.head?) h
  simp [replacementName, uniqueConstraintName, toString] at hhead

theorem constraintName_ne_history (m f : String) : HistoryTable.name ≠ uniqueConstraintName m f := by
  intro h
  have hhead := congrArg (fun s : String => s.toList.head?) h
  simp [HistoryTable.name, uniqueConstraintName, toString] at hhead

theorem replacementName_inj {n m : String} (h : replacementName n = replacementName m) : n = m := by
  have hlist := congrArg String.toList h
  rw [replacementName, replacementName, String.toList_append, String.toList_append,
    List.append_cancel_left_eq] at hlist
  exact String.toList_inj.1 hlist

/-- The names are different exactly if the schema is unambiguous: no other two kinds can clash. -/
theorem nodup_physicalNames (hs : s.Valid) : s.physicalNames.Nodup ↔ s.Unambiguous := by
  rw [valid_iff_sound] at hs
  have hjoin : HistoryTable.name ∉ s.allJoinNames := by
    intro hin
    obtain ⟨n, l, -, h⟩ := (mem_allJoinNames s _).1 hin
    exact HistoryTable.not_named_join (d := .postgresql) n l.name h
  have hreplacement : HistoryTable.name ∉ s.names.map replacementName := by
    intro hin
    obtain ⟨n, -, h⟩ := List.mem_map.1 hin
    exact HistoryTable.not_named_replacement (d := .postgresql) n h
  have hconstraint : HistoryTable.name ∉ s.constraintNames := by
    intro hin
    obtain ⟨p, -, h⟩ := List.mem_map.1 hin
    exact constraintName_ne_history p.1 p.2 h.symm
  have hapart : ∀ r ∈ s.names.map replacementName, ∀ c ∈ s.constraintNames, r ≠ c := by
    intro r hr c hc
    obtain ⟨n, -, rfl⟩ := List.mem_map.1 hr
    obtain ⟨p, -, rfl⟩ := List.mem_map.1 hc
    exact constraintName_ne_replacementName n p.1 p.2
  have hrebuilt : (s.names.map replacementName).Nodup :=
    hs.distinct.map fun _ _ => replacementName_inj
  rw [physicalNames, List.nodup_append]
  constructor
  · rintro ⟨-, hothers, htables⟩
    have hcolumns := (nodup_constraintNames hs).1
      (List.nodup_append.1 (List.nodup_cons.1 hothers).2).2.1
    have hfree : ∀ t ∈ HistoryTable.name :: (s.names.map replacementName ++ s.constraintNames),
        t ∉ s.names ∧ t ∉ s.allJoinNames := fun t ht =>
      ⟨fun hn => htables t (List.mem_append_left _ hn) t ht rfl,
        fun hj => htables t (List.mem_append_right _ hj) t ht rfl⟩
    obtain ⟨hhistory, hrest⟩ := List.forall_mem_cons.1 hfree
    obtain ⟨hreplacements, hconstraints⟩ := List.forall_mem_append.1 hrest
    exact ⟨hhistory.1, fun n hn => hreplacements _ (List.mem_map_of_mem hn), hconstraints, hcolumns⟩
  · intro h
    refine ⟨Sql.nodup_names_append hs, List.nodup_cons.2 ⟨?_, List.nodup_append.2
      ⟨hrebuilt, (nodup_constraintNames hs).2 h.columns, hapart⟩⟩, ?_⟩
    · exact fun hin => (List.mem_append.1 hin).elim hreplacement hconstraint
    · have hfree : ∀ t ∈ HistoryTable.name :: (s.names.map replacementName ++ s.constraintNames),
          t ∉ s.names ∧ t ∉ s.allJoinNames := by
        refine List.forall_mem_cons.2 ⟨⟨h.history, hjoin⟩, List.forall_mem_append.2
          ⟨?_, h.constraints⟩⟩
        intro r hr
        obtain ⟨n, hn, rfl⟩ := List.mem_map.1 hr
        exact h.replacements n hn
      rintro n hn t ht rfl
      exact (List.mem_append.1 hn).elim (hfree n ht).1 (hfree n ht).2

/-- An entity under the name of another one's replacement. -/
def crowded : Schema where
  entities := [{ name := "A", fields := [{ name := "id", type := .bigint, primaryKey := true }] },
    { name := "_sw_new_A",
      fields := [{ name := "id", type := .bigint, primaryKey := true },
        { name := "label", unique := true }] }]

/-- Both a valid schema with names that clash and one without. -/
theorem nodup_physicalNames_crowded :
    (crowded.Valid ∧ ¬ crowded.physicalNames.Nodup) ∧
      (crowded.erase "A").Valid ∧ (crowded.erase "A").Unambiguous := by
  have hvalid : crowded.Valid := by decide +kernel
  have hrest : (crowded.erase "A").Valid := by decide +kernel
  refine ⟨⟨hvalid, fun h => ?_⟩, hrest, (nodup_physicalNames hrest).1 (by decide +kernel)⟩
  exact (((nodup_physicalNames hvalid).1 h).replacements "A" (by decide)).1 (by decide)

end Schema

/-! ## Where the names stand -/

namespace Sql

/-- The tables and constraints that the statements of a schema make are among the names. -/
theorem mem_physicalNames_of_catalog {c : Catalog} (hs : s.Sound) (h : catalog d s = .ok c) :
    (∀ n, .table n ∈ c ↔ n ∈ s.names ++ s.allJoinNames) ∧
      ∀ k, (∃ n m, .unique n k m ∈ c) ↔ k ∈ s.constraintNames := by
  obtain ⟨ts, hts, -, -⟩ := mem_catalog h
  constructor
  · intro n
    rw [table_mem_catalog h hts, ← tableNames_ofSchema hs hts, List.mem_map]
  · intro k
    simp only [mem_catalog_iff hs h, Schema.constraintNames, List.mem_map, Prod.exists,
      Schema.mem_uniqueColumns]
    constructor
    · rintro ⟨n, m, x, hx, hlays⟩
      cases hlays with
      | @unique n f hu hp => exact ⟨n, f.name, ⟨f, hx, hu, hp, rfl⟩, rfl⟩
      | link _ _ hf => simp [linkFacts] at hf
    · rintro ⟨n, _, ⟨f, hf, hu, hp, rfl⟩, rfl⟩
      exact ⟨n, f.name, _, hf, .unique hu hp⟩

/-- A table cannot be rebuilt while its replacement's name is taken. -/
theorem Ddl.rebuild_of_taken {before after : Schema} {others : Tables} {new : Entity} {n : String}
    (hs : before.Sound) (ho : Tables.ofSchema .sqlite before = .ok others)
    (hn : replacementName n ∈ before.names ++ before.allJoinNames)
    (hnew : after.entity n = .ok new) (changed : List (String × Expr)) :
    rebuild before after n changed = .error (.defect .duplicateTable "") := by
  have hfound : (others.find? (replacementName n)).isSome = true := by
    rw [← tableNames_ofSchema hs ho] at hn
    obtain ⟨t, ht, hname⟩ := List.mem_map.1 hn
    exact List.find?_isSome.2 ⟨t, ht, decide_eq_true hname⟩
  rw [rebuild, ho, hnew]
  simp only [liftSchema, Except.mapError, bind, Except.bind, hfound, if_true]

end Sql

end SchemaLedger
