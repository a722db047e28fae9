import TreeMigration.Proofs.Declaration.Corpus
import TreeMigration.Proofs.Declaration.Grammar
import TreeMigration.Proofs.Identifier.Runs

/-!
Keywords among the declared names. The reader takes any bare identifier for a name, a keyword too;
for that a line has to hold another keyword in front of it. So a keyword gets into an index only by
a line with two of them.

The line is divided into its runs of identifier characters. Where the front of a header ends no
identifier does, so the runs of the line are those of the front, then the name, then the others
(`runs_written`); the keyword and the name are two of them, and `two_keywords` follows without
looking at what else the line holds.

The condition is met by real sources: a functional interface is introduced by two keywords, of which
the second is taken for the name.
-/
namespace TreeMigration

open Identifier (runs runs_append_gap runs_of_isIdentifier)

/-- Where no identifier reaches the end of a text, the runs behind it are on their own. -/
theorem Text.EndsOutside.runs_append {s : Text} (ends : s.EndsOutside) (t : Text) :
    runs (s ++ t) = runs s ++ runs t := by
  rcases List.eq_nil_or_concat' s with rfl | ⟨front, c, rfl⟩
  · rfl
  · have outside : Identifier.isPart c = false := by simpa [EndsOutside] using ends
    have cut : ∀ later : Text, runs (front ++ ([c] ++ later)) = runs front ++ runs later := by
      intro later
      rw [runs_append_gap front (by simpa using outside),
        Identifier.runs_gap_append (by simpa using outside)]
    have ended : runs (front ++ [c]) = runs front := by
      have single := cut []
      rwa [List.append_nil, show runs [] = [] from rfl, List.append_nil] at single
    rw [List.append_assoc, cut, ended]

/-- A bare identifier that does not go on is the first run. -/
theorem Identifier.runs_name_append {name rest : Text} (bare : name.isIdentifier = true)
    (whole : rest.head?.any Identifier.isPart = false) :
    runs (name ++ rest) = name :: runs rest := by
  have boundary : ∀ c ∈ rest.head?, Identifier.isPart c = false := by
    intro c first
    rwa [Option.mem_def.mp first] at whole
  rw [runs_append_gap name boundary, runs_of_isIdentifier bare]
  rfl

namespace Header

def isKeyword (t : Text) : Bool := (keywords.map Prod.fst).contains t

theorem Front.listed (front : Front) : front.keyword ∈ keywords.map Prod.fst := by
  obtain ⟨plain, listed, -⟩ := introduces_iff.mp front.introduces
  exact List.mem_map_of_mem listed

/-- The keyword and the name of a header are two runs of its line. -/
theorem runs_written (front : Front) (designation : Designation) :
    runs (front.text ++ designation.text) =
      runs front.lead ++ front.keyword :: (runs (front.gap.text ++ designation.lead) ++
        designation.name.val :: runs designation.rest) := by
  have spaced : (front.gap.text ++ (designation.lead ++
      (designation.name.val ++ designation.rest))).head?.any Identifier.isPart = false := by
    obtain ⟨c, first, blank⟩ := front.gap.head_append (designation.lead ++
      (designation.name.val ++ designation.rest))
    rw [first]
    exact Identifier.isPart_eq_false_of_isBlank blank
  have parts : front.text ++ designation.text = front.lead ++ (front.keyword ++
      (front.gap.text ++ (designation.lead ++ (designation.name.val ++ designation.rest)))) := by
    simp [front.text_eq, designation.text_eq]
  have bare := words_bare _ (List.mem_append_right _ front.listed)
  rw [parts, front.endsOutside_lead.runs_append, Identifier.runs_name_append bare spaced,
    ← List.append_assoc,
    (front.gap.endsOutside.append designation.endsOutside_lead).runs_append,
    Identifier.runs_name_append designation.name.property designation.whole]

/-- A line that declares a keyword has two keywords. -/
theorem two_keywords (front : Front) {designation : Designation}
    (named : designation.name.val ∈ keywords.map Prod.fst) :
    2 ≤ (runs (front.text ++ designation.text)).countP isKeyword := by
  have first : isKeyword front.keyword = true := List.contains_iff_mem.mpr front.listed
  have second : isKeyword designation.name.val = true := List.contains_iff_mem.mpr named
  rw [runs_written, List.countP_append, List.countP_cons_of_pos first, List.countP_append,
    List.countP_cons_of_pos second]
  omega

end Header

/-- A keyword is in an index exactly if it stands in the place of the name on some line; so it is
not where no line has two keywords. -/
theorem Indexing.contains_keyword_iff {corpus : List SourceText} {word : Text}
    (listed : word ∈ Header.keywords.map Prod.fst) :
    ((ofFiles corpus).index.contains word = true ↔
      ∃ file ∈ corpus, ∃ line ∈ file.2, ∃ (front : Header.Front) (designation : Header.Designation),
        line = front.text ++ designation.text ∧ designation.name.val = word) ∧
    ((∀ file ∈ corpus, ∀ line ∈ file.2, (runs line).countP Header.isKeyword ≤ 1) →
      (ofFiles corpus).index.contains word = false) := by
  have declared : (ofFiles corpus).index.contains word = true ↔
      ∃ file ∈ corpus, ∃ line ∈ file.2, ∃ (front : Header.Front) (designation : Header.Designation),
        line = front.text ++ designation.text ∧ designation.name.val = word := by
    rw [contains_ofFiles_iff]
    refine exists_congr fun file => and_congr_right fun _ => exists_congr fun line =>
      and_congr_right fun _ => ?_
    constructor
    · rintro ⟨header, read, rfl⟩
      obtain ⟨front, designation, whole, rfl⟩ := Header.exists_written read
      exact ⟨front, designation, whole, rfl⟩
    · rintro ⟨front, designation, rfl, rfl⟩
      exact ⟨_, Header.ofLine?_written front designation, rfl⟩
  refine ⟨declared, fun single => Bool.eq_false_iff.mpr fun known => ?_⟩
  obtain ⟨file, inCorpus, line, inFile, front, designation, rfl, rfl⟩ := declared.mp known
  have few := single file inCorpus _ inFile
  have many := Header.two_keywords front listed
  omega

namespace Indexing

def functionalInterface : List SourceText := [(⟨"Shape.kt"⟩, ["fun interface Shape \x7b"])]

theorem contains_keyword_iff_interface :
    ("interface" : Text) ∈ Header.keywords.map Prod.fst ∧
      (∃ file ∈ functionalInterface, ∃ line ∈ file.2,
        ∃ (front : Header.Front) (designation : Header.Designation),
          line = front.text ++ designation.text ∧ designation.name.val = "interface") ∧
      (ofFiles [(⟨"Shape.kt"⟩, ["interface Shape \x7b"])]).index.contains "interface" = false := by
  have listed : ("interface" : Text) ∈ Header.keywords.map Prod.fst := by decide +kernel
  exact ⟨listed, (contains_keyword_iff listed).1.mp (by decide +kernel),
    (contains_keyword_iff listed).2 (by decide +kernel)⟩

/-- Of a functional interface the keyword is indexed and the name is not. -/
theorem keyword_indexed :
    (∀ file ∈ functionalInterface, ∀ line ∈ file.2, '\x60' ∉ line) ∧
      (ofFiles functionalInterface).index =
        ⟨[⟨"interface", .function, ⟨"Shape.kt"⟩, 1⟩], 0⟩ := by
  decide +kernel

end Indexing

end TreeMigration
