import TreeMigration.Proofs.Outcome
import TreeMigration.SourceList

/-!
What a source list admits. Whichever way a source file was found, it was a file then, its path ends
in the extension asked for and it carries that extension.

`Admitted` is proved of what stands below a path by the recursion of the search, then of the lines
of a list file, then of a whole list (`admitted_of_resolve`). The extension it speaks of is the one
with its dot, as it is compared with the ends of names.
-/
namespace TreeMigration

namespace SourceList

/-- A source file as admitted for an extension. -/
structure Admitted (files : FileSystem) (extension : Text) (source : SourceFile) : Prop where
  carried : source.extension = extension
  isFile : files.isFile source.path = true
  ending : hasEnding extension source.path = true

theorem admitted_of_mem_below {files : FileSystem} {extension : Text} {path : Path}
    {source : SourceFile} (member : source ∈ below files extension path) :
    Admitted files extension source := by
  induction path using below.induct files extension with
  | case1 path file ending =>
    rw [below, if_pos file, if_pos ending] at member
    cases List.mem_singleton.mp member
    exact ⟨rfl, file, ending⟩
  | case2 path file other =>
    rw [below, if_pos file, if_neg other] at member
    cases member
  | case3 path noFile directory shorter ih =>
    rw [below, if_neg noFile, dif_pos directory] at member
    obtain ⟨name, -, inside⟩ := List.mem_flatMap.mp member
    exact ih name inside
  | case4 path noFile noDirectory =>
    rw [below, if_neg noFile, dif_neg noDirectory] at member
    cases member

theorem admitted_of_mem_ofListLines {files : FileSystem} {extension : Text} {list : Path}
    {number : Nat} {lines : List Text} {source : SourceFile}
    (member : source ∈ (ofListLines files extension list number lines).2) :
    Admitted files extension source := by
  induction lines generalizing number with
  | nil => cases member
  | cons line later ih =>
    rw [ofListLines] at member
    split at member
    · exact ih member
    · split at member
      · rcases List.mem_append.mp member with inside | member
        · exact admitted_of_mem_below inside
        · exact ih member
      · exact ih member

theorem admitted_of_resolve {files : FileSystem} {root : Path} {extension : Text}
    {sources : List SourceFile} (resolved : (resolve files root extension).result = .ok sources) :
    ∀ source ∈ sources, Admitted files (withDot extension) source := by
  intro source member
  unfold resolve at resolved
  dsimp only at resolved
  split at resolved
  · cases resolved
    exact admitted_of_mem_below member
  · split at resolved
    · obtain ⟨lines, -, resolved⟩ := Noted.bind_result_eq_ok.mp resolved
      obtain ⟨⟨⟩, -, resolved⟩ := Noted.bind_result_eq_ok.mp resolved
      cases resolved
      exact admitted_of_mem_ofListLines member
    · cases resolved

end SourceList

end TreeMigration
