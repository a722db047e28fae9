import TreeMigration.Proofs.Declaration.Corpus
import Mathlib.Data.List.Perm.Basic

/-!
What an index keeps of the declarations entered. Each name keeps its first declaration and every
other declaration is counted, so only what is told of a repeated name can depend on the order in
which files were entered.

`Index.ofDeclarations` enters a list of declarations, and the index of some files is that of their
declarations (`Indexing.index_ofFiles`), so the statements are about lists. Three facts carry the
rest: a name keeps what was entered first (`find?_foldl_insert`), no name is listed twice
(`nodup_ofDeclarations`), and every declaration is listed or counted (`size_add_redeclarations`).

`ofDeclarations_perm` puts them together for two orders of the same declarations. That a name
declared once is told the same in both uses that a search finds the only item there is, wherever it
stands.
-/
namespace TreeMigration

/-- The declarations of some files, in the order in which they are entered. -/
def Declaration.inFiles (corpus : List SourceText) : List Declaration :=
  corpus.flatMap fun file => ofLines file.1 file.2

/-- A name that is declared at more than one place. -/
def Text.RepeatedIn (name : Text) (declarations : List Declaration) : Prop :=
  1 < declarations.countP (·.name == name)

namespace Index

def ofDeclarations (declarations : List Declaration) : Index := declarations.foldl insert .empty

theorem find?_insert (index : Index) (declaration : Declaration) (name : Text) :
    (index.insert declaration).find? name =
      (index.find? name).or ([declaration].find? (·.name == name)) := by
  unfold insert
  split
  · rename_i known
    by_cases same : declaration.name = name
    · subst same
      obtain ⟨first, found⟩ := Option.isSome_iff_exists.mp known
      change index.find? declaration.name = _
      rw [found, Option.some_or]
    · have other : [declaration].find? (·.name == name) = none := by simp [same]
      rw [other, Option.or_none]
      rfl
  · simp [find?, List.find?_append]

/-- A name keeps the first declaration that was entered for it. -/
theorem find?_foldl_insert (declarations : List Declaration) (index : Index) (name : Text) :
    (declarations.foldl insert index).find? name =
      (index.find? name).or (declarations.find? (·.name == name)) := by
  induction declarations generalizing index with
  | nil => simp
  | cons declaration later ih =>
    rw [List.foldl_cons, ih, find?_insert, Option.or_assoc, ← List.find?_append]
    rfl

theorem find?_ofDeclarations (declarations : List Declaration) (name : Text) :
    (ofDeclarations declarations).find? name = declarations.find? (·.name == name) :=
  find?_foldl_insert declarations .empty name

theorem contains_ofDeclarations (declarations : List Declaration) (name : Text) :
    (ofDeclarations declarations).contains name = declarations.any (·.name == name) := by
  rw [contains, find?_ofDeclarations, List.isSome_find?]

theorem nodup_insert {index : Index} (distinct : (index.declarations.map Declaration.name).Nodup)
    (declaration : Declaration) :
    ((index.insert declaration).declarations.map Declaration.name).Nodup := by
  unfold insert
  split
  · exact distinct
  · rename_i unknown
    have absent : declaration.name ∉ index.declarations.map Declaration.name := by
      intro member
      obtain ⟨known, listed, same⟩ := List.mem_map.mp member
      exact unknown (contains_iff.mpr ⟨known, listed, same⟩)
    simpa [List.nodup_append] using ⟨distinct, by simpa using absent⟩

/-- No name is listed twice. -/
theorem nodup_ofDeclarations (declarations : List Declaration) :
    ((ofDeclarations declarations).declarations.map Declaration.name).Nodup := by
  have kept : ∀ index : Index, (index.declarations.map Declaration.name).Nodup →
      ((declarations.foldl insert index).declarations.map Declaration.name).Nodup := by
    induction declarations with
    | nil => exact fun _ distinct => distinct
    | cons declaration later ih =>
      exact fun index distinct => ih _ (nodup_insert distinct declaration)
  exact kept .empty List.nodup_nil

/-- Every declaration is either listed or counted. -/
theorem size_add_redeclarations (declarations : List Declaration) :
    (ofDeclarations declarations).size + (ofDeclarations declarations).redeclarations =
      declarations.length := by
  have counted : ∀ index : Index, (declarations.foldl insert index).size +
      (declarations.foldl insert index).redeclarations =
        index.size + index.redeclarations + declarations.length := by
    induction declarations with
    | nil => exact fun _ => rfl
    | cons declaration later ih =>
      intro index
      have step : (index.insert declaration).size + (index.insert declaration).redeclarations =
          index.size + index.redeclarations + 1 := by
        unfold insert
        split
        · rfl
        · simp only [size, List.length_append, List.length_singleton]
          omega
      rw [List.foldl_cons, ih, step, List.length_cons]
      omega
  have whole := counted .empty
  have nothing : Index.empty.size + Index.empty.redeclarations = 0 := rfl
  rw [nothing, Nat.zero_add] at whole
  exact whole

/-- Where at most one item passes a test, any order finds the same one. -/
theorem find?_perm_of_once {α : Type} {items others : List α} (reordered : items.Perm others)
    {passes : α → Bool} (once : items.countP passes ≤ 1) :
    items.find? passes = others.find? passes := by
  rw [List.countP_eq_length_filter] at once
  have kept := reordered.filter passes
  rw [← List.head?_filter, ← List.head?_filter]
  cases shape : items.filter passes with
  | nil =>
    rw [shape] at kept
    rw [List.nil_perm.mp kept]
  | cons first later =>
    rw [shape, List.length_cons] at once
    have alone : later = [] := List.length_eq_zero_iff.mp (by omega)
    subst alone
    rw [shape] at kept
    rw [List.singleton_perm.mp kept]

/-- In whichever order declarations are entered, the index has the same names and the same counts,
and tells the same of every name that is declared only once. -/
theorem ofDeclarations_perm {declarations others : List Declaration}
    (reordered : declarations.Perm others) :
    (∀ name, (ofDeclarations declarations).contains name = (ofDeclarations others).contains name) ∧
    (ofDeclarations declarations).size = (ofDeclarations others).size ∧
    (ofDeclarations declarations).redeclarations = (ofDeclarations others).redeclarations ∧
    ∀ name : Text, ¬ name.RepeatedIn declarations →
      (ofDeclarations declarations).find? name = (ofDeclarations others).find? name := by
  have known : ∀ name, (ofDeclarations declarations).contains name =
      (ofDeclarations others).contains name := by
    intro name
    rw [contains_ofDeclarations, contains_ofDeclarations, Bool.eq_iff_iff, List.any_eq_true,
      List.any_eq_true]
    simp only [reordered.mem_iff]
  have names : ((ofDeclarations declarations).declarations.map Declaration.name).Perm
      ((ofDeclarations others).declarations.map Declaration.name) := by
    rw [List.perm_ext_iff_of_nodup (nodup_ofDeclarations _) (nodup_ofDeclarations _)]
    intro name
    have same := known name
    rw [Bool.eq_iff_iff, contains_iff, contains_iff] at same
    simpa only [List.mem_map] using same
  have sizes : (ofDeclarations declarations).size = (ofDeclarations others).size := by
    simpa [size] using names.length_eq
  refine ⟨known, sizes, ?_, ?_⟩
  · have before := size_add_redeclarations declarations
    have after := size_add_redeclarations others
    have lengths := reordered.length_eq
    omega
  · intro name once
    rw [find?_ofDeclarations, find?_ofDeclarations]
    exact find?_perm_of_once reordered (Nat.le_of_not_lt once)

end Index

/-- The index of some files is the index of their declarations. -/
theorem Indexing.index_ofFiles (corpus : List SourceText) :
    (ofFiles corpus).index = Index.ofDeclarations (Declaration.inFiles corpus) := by
  rw [ofFiles, Index.ofDeclarations, Declaration.inFiles, List.foldl_flatMap]
  have entered : ∀ start : Indexing,
      (corpus.foldl (fun indexing file => indexing.insertFile file.1 file.2) start).index =
        corpus.foldl
          (fun index file => (Declaration.ofLines file.1 file.2).foldl Index.insert index)
          start.index := by
    induction corpus with
    | nil => exact fun _ => rfl
    | cons file later ih => exact fun start => ih _
  exact entered .empty

end TreeMigration
