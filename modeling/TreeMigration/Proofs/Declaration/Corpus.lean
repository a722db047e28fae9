import TreeMigration.Declaration.Index
import Mathlib.Data.List.Basic

/-!
What an index knows after any number of files: a name is known exactly if some line of some file
declares it.

A `SourceText` is a file with its lines, and `Indexing.ofFiles` enters a list of them from the empty
index, which is what the first pass does once all sources have been read. The membership is proved
for one declaration, for the lines of a file and for a list of files in turn, each by induction on
the layer below (`contains_insert_iff`, `contains_insertFile_iff`, `contains_ofFiles_iff`).

Nothing here speaks of which of several declarations is kept. That is settled where the first
declarations and their places are described.
-/
namespace TreeMigration

abbrev SourceText := Path × List Text

/-- The index of some files, entered one after the other. -/
def Indexing.ofFiles (corpus : List SourceText) : Indexing :=
  corpus.foldl (fun indexing file => indexing.insertFile file.1 file.2) .empty

/-- Some line declares the name. -/
def Text.DeclaredIn (name : Text) (lines : List Text) : Prop :=
  ∃ line ∈ lines, ∃ header, Header.ofLine? line = some header ∧ header.name = name

theorem Declaration.mem_ofLinesFrom {file : Path} {number : Nat} {lines : List Text}
    {declaration : Declaration} (member : declaration ∈ ofLinesFrom file number lines) :
    ∃ line ∈ lines, ∃ header, Header.ofLine? line = some header ∧
      header.name = declaration.name ∧ header.kind = declaration.kind := by
  induction lines generalizing number with
  | nil => simp [ofLinesFrom] at member
  | cons line later ih =>
    rw [ofLinesFrom] at member
    cases read : Header.ofLine? line with
    | none =>
      simp only [read] at member
      obtain ⟨found, listed, rest⟩ := ih member
      exact ⟨found, List.mem_cons_of_mem _ listed, rest⟩
    | some header =>
      simp only [read] at member
      rcases List.mem_cons.mp member with rfl | member
      · exact ⟨line, List.mem_cons_self, header, read, rfl, rfl⟩
      · obtain ⟨found, listed, rest⟩ := ih member
        exact ⟨found, List.mem_cons_of_mem _ listed, rest⟩

theorem Declaration.exists_name_iff {file : Path} {lines : List Text} {name : Text} :
    (∃ declaration ∈ ofLines file lines, declaration.name = name) ↔ name.DeclaredIn lines := by
  constructor
  · rintro ⟨declaration, member, rfl⟩
    obtain ⟨line, listed, header, read, same, -⟩ := mem_ofLinesFrom member
    exact ⟨line, listed, header, read, same⟩
  · rintro ⟨line, listed, header, read, rfl⟩
    rw [ofLines]
    generalize 1 = number
    induction lines generalizing number with
    | nil => cases listed
    | cons first later ih =>
      rw [ofLinesFrom]
      rcases List.mem_cons.mp listed with rfl | listed
      · simp only [read]
        exact ⟨_, List.mem_cons_self, rfl⟩
      · obtain ⟨declaration, member, same⟩ := ih listed (number + 1)
        refine ⟨declaration, ?_, same⟩
        cases Header.ofLine? first with
        | none => exact member
        | some other => exact List.mem_cons_of_mem _ member

namespace Index

theorem contains_iff {index : Index} {name : Text} :
    index.contains name = true ↔ ∃ declaration ∈ index.declarations, declaration.name = name := by
  simp [contains, find?]

/-- Entering a declaration makes its name known and no other. -/
theorem contains_insert_iff {index : Index} {declaration : Declaration} {name : Text} :
    (index.insert declaration).contains name = true ↔
      index.contains name = true ∨ declaration.name = name := by
  unfold insert
  split
  · rename_i known
    constructor
    · exact fun before => .inl before
    · rintro (before | rfl)
      · exact before
      · exact known
  · simp only [contains_iff, List.mem_append, List.mem_singleton]
    constructor
    · rintro ⟨found, member | rfl, same⟩
      · exact .inl ⟨found, member, same⟩
      · exact .inr same
    · rintro (⟨found, member, same⟩ | same)
      · exact ⟨found, .inl member, same⟩
      · exact ⟨declaration, .inr rfl, same⟩

theorem contains_insertFile_iff {index : Index} {file : Path} {lines : List Text} {name : Text} :
    (index.insertFile file lines).contains name = true ↔
      index.contains name = true ∨ name.DeclaredIn lines := by
  rw [← @Declaration.exists_name_iff file, insertFile]
  generalize Declaration.ofLines file lines = found
  induction found generalizing index with
  | nil => simp
  | cons declaration later ih =>
    rw [List.foldl_cons, ih, contains_insert_iff]
    simp only [List.mem_cons, exists_eq_or_imp, or_assoc]

end Index

namespace Indexing

theorem contains_foldl_iff (corpus : List SourceText) (start : Indexing) {name : Text} :
    (corpus.foldl (fun indexing file => indexing.insertFile file.1 file.2) start).index.contains
        name = true ↔
      start.index.contains name = true ∨ ∃ file ∈ corpus, name.DeclaredIn file.2 := by
  induction corpus generalizing start with
  | nil => simp
  | cons file later ih =>
    rw [List.foldl_cons, ih, insertFile, Index.contains_insertFile_iff]
    simp only [List.mem_cons, exists_eq_or_imp, or_assoc]

/-- A name is known exactly if some line of some file declares it. -/
theorem contains_ofFiles_iff {corpus : List SourceText} {name : Text} :
    (ofFiles corpus).index.contains name = true ↔ ∃ file ∈ corpus, name.DeclaredIn file.2 := by
  rw [ofFiles, contains_foldl_iff]
  simp [empty, Index.empty, Index.contains, Index.find?]

theorem files_ofFiles (corpus : List SourceText) : (ofFiles corpus).files = corpus.length := by
  have counted : ∀ start : Indexing,
      (corpus.foldl (fun indexing file => indexing.insertFile file.1 file.2) start).files =
        start.files + corpus.length := by
    induction corpus with
    | nil => exact fun _ => rfl
    | cons file later ih =>
      intro start
      rw [List.foldl_cons, ih, List.length_cons]
      simp only [insertFile]
      omega
  rw [ofFiles, counted]
  exact Nat.zero_add _

end Indexing

end TreeMigration
