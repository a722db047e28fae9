import TreeMigration.Proofs.FileSystem.Listing
import TreeMigration.Proofs.SourceList.Growth
import TreeMigration.Proofs.Text.Bytes

/-!
The order of the source files below a path. Each directory is gone through in the order of its
names, so the files come in the order of their paths, name by name, and the order in which a system
lists the entries of a directory has no part in it.

`Path.Before` compares two paths at the first name in which they differ, by bytes. Every file found
below a path goes on from the path (`components_of_mem_below`), and files found below two names of a
directory differ first at those names, so the recursion of the search puts the pieces in order
(`below_ascending`). Nothing is assumed of links: a link is passed under its own name.
-/
namespace TreeMigration

/-- One path comes before another that starts like it: at the first name in which they differ, or at
the end of the one that is shorter, its name has the lesser bytes. -/
def Path.Before (path other : Path) : Prop :=
  path.parts.lead = other.parts.lead ∧
    path.parts.names.map Text.bytes < other.parts.names.map Text.bytes

theorem Path.Before.ne {path other : Path} (before : path.Before other) : path ≠ other := by
  rintro rfl
  exact List.lt_irrefl _ before.2

namespace SourceList

variable {files other : FileSystem} {extension : Text}

theorem components_of_join {path longer : Path} {name : Name} {names : List Text}
    (spelled : path.text ≠ [])
    (same : longer.components =
      ((path.join ⟨name.text⟩).parts.lead, (path.join ⟨name.text⟩).parts.names ++ names)) :
    longer.components = (path.parts.lead, path.parts.names ++ name.text :: names) := by
  obtain ⟨lead, whole⟩ := Prod.mk.inj (name.components_join spelled)
  rw [same, lead, whole, List.append_assoc, List.singleton_append]

/-- The path of a source file goes on from the path it was found below. -/
theorem components_of_mem_below {path : Path} {source : SourceFile}
    (member : source ∈ below files extension path) :
    ∃ names, source.path.components = (path.parts.lead, path.parts.names ++ names) := by
  induction path using below.induct files extension with
  | case1 path file ending =>
    rw [below, if_pos file, if_pos ending] at member
    rw [List.mem_singleton.mp member]
    exact ⟨[], by rw [List.append_nil]; rfl⟩
  | case2 path file other =>
    rw [below, if_pos file, if_neg other] at member
    cases member
  | case3 path noFile directory shorter ih =>
    obtain ⟨location, located⟩ := FileSystem.isDirectory_iff.mp directory
    rw [below, if_neg noFile, dif_pos directory] at member
    obtain ⟨name, -, inside⟩ := List.mem_flatMap.mp member
    obtain ⟨names, same⟩ := ih name inside
    exact ⟨_, components_of_join (FileSystem.text_ne_nil_of_locate located) same⟩
  | case4 path noFile noDirectory =>
    rw [below, if_neg noFile, dif_neg noDirectory] at member
    cases member

/-- The source files below a path ascend. -/
theorem below_ascending (files : FileSystem) (extension : Text) (path : Path) :
    (below files extension path).Pairwise fun first second => first.path.Before second.path := by
  induction path using below.induct files extension with
  | case1 path file ending =>
    rw [below, if_pos file, if_pos ending]
    exact List.pairwise_singleton _ _
  | case2 path file other =>
    rw [below, if_pos file, if_neg other]
    exact List.Pairwise.nil
  | case3 path noFile directory shorter ih =>
    obtain ⟨location, located⟩ := FileSystem.isDirectory_iff.mp directory
    have spelled := FileSystem.text_ne_nil_of_locate located
    have listed : files.list path = files.children location := by
      rw [FileSystem.list, located]
    rw [below, if_neg noFile, dif_pos directory, listed]
    refine List.pairwise_flatMap.mpr
      ⟨fun name _ => ih name, (files.children_ascending location).imp ?_⟩
    intro name later less first member second memberToo
    -- what is found below two names of one directory differs first at these names
    obtain ⟨names, same⟩ := components_of_mem_below member
    obtain ⟨others, sameToo⟩ := components_of_mem_below memberToo
    obtain ⟨lead, whole⟩ := Prod.mk.inj (components_of_join spelled same)
    obtain ⟨leadToo, wholeToo⟩ := Prod.mk.inj (components_of_join spelled sameToo)
    refine ⟨lead.trans leadToo.symm, Text.map_bytes_lt_map_bytes_iff.mpr ?_⟩
    rw [whole, wholeToo]
    exact List.append_left_lt (List.cons_lt_cons_iff.mpr (.inl less))
  | case4 path noFile noDirectory =>
    rw [below, if_neg noFile, dif_neg noDirectory]
    exact List.Pairwise.nil

/-- The order in which the system lists entries does not matter to what is found. -/
theorem below_eq_of_relisted (relisted : files.Relisted other) (extension : Text) (path : Path) :
    below other extension path = below files extension path := by
  have isFile : ∀ path, other.isFile path = files.isFile path := by
    intro path
    rw [FileSystem.isFile, FileSystem.isFile, relisted.locate_eq]
  have isDirectory : ∀ path, other.isDirectory path = files.isDirectory path := by
    intro path
    rw [FileSystem.isDirectory, FileSystem.isDirectory, relisted.locate_eq]
  induction path using below.induct files extension with
  | case1 path file ending =>
    rw [below, below, if_pos file, if_pos ((isFile path).trans file)]
  | case2 path file notEnding =>
    rw [below, below, if_pos file, if_pos ((isFile path).trans file)]
  | case3 path noFile directory shorter ih =>
    have noFileToo : ¬ other.isFile path = true := by rwa [isFile]
    rw [below, below, if_neg noFile, dif_pos directory, if_neg noFileToo,
      dif_pos ((isDirectory path).trans directory), relisted.list_eq]
    exact List.flatMap_congr fun name _ => ih name
  | case4 path noFile noDirectory =>
    have noFileToo : ¬ other.isFile path = true := by rwa [isFile]
    have noDirectoryToo : ¬ other.isDirectory path = true := by rwa [isDirectory]
    rw [below, below, if_neg noFile, dif_neg noDirectory, if_neg noFileToo, dif_neg noDirectoryToo]

end SourceList

end TreeMigration
