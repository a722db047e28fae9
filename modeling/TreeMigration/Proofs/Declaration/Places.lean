import TreeMigration.Proofs.Declaration.FirstWins
import Mathlib.Data.Set.Card

/-!
Where names are declared. A place is a line of a corpus; the index holds, for every name that some
place declares, what stands at the first such place in the order in which files are entered, and no
file entered later changes that.

A `Place` is the number of a file in the corpus and the number of a line in it, both counted from
zero, and `Place.Before` orders places by file and then by line. `Declares` and
`Declaration.FirstAt` say what stands at a place without mentioning an index.

To connect the two, the declarations of a corpus are listed together with their places
(`withPlaces`). The list holds exactly the places that declare something (`mem_withPlaces`), in
ascending order (`pairwise_withPlaces`), and without the places it is the list that is entered
(`map_snd_withPlaces`). A search in it therefore finds the first place, and the number of
declarations is the number of places, counted as a set (`encard_places`).
-/
namespace TreeMigration

/-- A line of a corpus: which file it is in and which of its lines it is, both counted from zero. -/
structure Place where
  file : Nat
  line : Nat
  deriving DecidableEq

namespace Place

/-- The order in which lines are entered. -/
def Before (place other : Place) : Prop :=
  place.file < other.file ∨ place.file = other.file ∧ place.line < other.line

theorem Before.asymm {place other : Place} (before : place.Before other) :
    ¬ other.Before place := by
  simp only [Before] at *
  omega

theorem eq_or_before (place other : Place) :
    place = other ∨ place.Before other ∨ other.Before place := by
  obtain ⟨file, line⟩ := place
  obtain ⟨file', line'⟩ := other
  simp only [Before, Place.mk.injEq]
  omega

def Declares (place : Place) (corpus : List SourceText) (header : Header) : Prop :=
  ∃ file line, corpus[place.file]? = some file ∧ file.2[place.line]? = some line ∧
    Header.ofLine? line = some header

theorem Declares.unique {place : Place} {corpus : List SourceText} {header other : Header}
    (first : place.Declares corpus header) (second : place.Declares corpus other) :
    header = other := by
  obtain ⟨file, line, foundFile, foundLine, read⟩ := first
  obtain ⟨file', line', foundFile', foundLine', read'⟩ := second
  cases foundFile.symm.trans foundFile'
  cases foundLine.symm.trans foundLine'
  exact Option.some.inj (read.symm.trans read')

end Place

/-- The declaration tells what stands at this place, and its name is declared nowhere before. -/
structure Declaration.FirstAt (declaration : Declaration) (corpus : List SourceText)
    (place : Place) : Prop where
  declares : place.Declares corpus ⟨declaration.name, declaration.kind⟩
  first : ∀ other header, Place.Declares other corpus header → header.name = declaration.name →
    ¬ other.Before place
  file : corpus[place.file]?.map Prod.fst = some declaration.file
  line : declaration.line = place.line + 1

namespace Declaration

/-- What a numbered line of a numbered file declares, with its place. -/
def onLine (file : SourceText × Nat) (line : Text × Nat) : Option (Place × Declaration) :=
  (Header.ofLine? line.1).map fun header =>
    (⟨file.2, line.2⟩, ⟨header.name, header.kind, file.1.1, line.2 + 1⟩)

/-- The declarations of a corpus with their places, in the order in which they are entered. -/
def withPlaces (corpus : List SourceText) : List (Place × Declaration) :=
  corpus.zipIdx.flatMap fun file => file.1.2.zipIdx.filterMap (onLine file)

theorem ofLinesFrom_eq (file : SourceText × Nat) (lines : List Text) (number : Nat) :
    ofLinesFrom file.1.1 (number + 1) lines =
      ((lines.zipIdx number).filterMap (onLine file)).map Prod.snd := by
  induction lines generalizing number with
  | nil => rfl
  | cons line later ih =>
    rw [ofLinesFrom, ih, List.zipIdx_cons]
    cases read : Header.ofLine? line with
    | none => simp [onLine, read]
    | some header => simp [onLine, read]

theorem map_snd_withPlaces (corpus : List SourceText) :
    (withPlaces corpus).map Prod.snd = inFiles corpus := by
  conv_rhs => rw [inFiles, ← List.zipIdx_map_fst 0 corpus, List.flatMap_map]
  rw [withPlaces, List.map_flatMap]
  exact List.flatMap_congr fun file _ => (ofLinesFrom_eq file file.1.2 0).symm

theorem mem_withPlaces {corpus : List SourceText} {place : Place} {declaration : Declaration} :
    (place, declaration) ∈ withPlaces corpus ↔
      place.Declares corpus ⟨declaration.name, declaration.kind⟩ ∧
        corpus[place.file]?.map Prod.fst = some declaration.file ∧
        declaration.line = place.line + 1 := by
  simp only [withPlaces, List.mem_flatMap, List.mem_filterMap]
  constructor
  · rintro ⟨⟨file, fileNumber⟩, inCorpus, ⟨line, lineNumber⟩, inFile, found⟩
    obtain ⟨header, read, same⟩ := Option.map_eq_some_iff.mp found
    cases same
    have foundFile := List.mk_mem_zipIdx_iff_getElem?.mp inCorpus
    exact ⟨⟨file, line, foundFile, List.mk_mem_zipIdx_iff_getElem?.mp inFile, read⟩,
      by rw [foundFile]; rfl, rfl⟩
  · obtain ⟨name, kind, path, number⟩ := declaration
    rintro ⟨⟨file, line, foundFile, foundLine, read⟩, samePath, rfl⟩
    rw [foundFile] at samePath
    cases samePath
    exact ⟨(file, place.file), List.mk_mem_zipIdx_iff_getElem?.mpr foundFile, (line, place.line),
      List.mk_mem_zipIdx_iff_getElem?.mpr foundLine, Option.map_eq_some_iff.mpr ⟨_, read, rfl⟩⟩

theorem pairwise_zipIdx {α : Type} (items : List α) :
    items.zipIdx.Pairwise fun first later => first.2 < later.2 := by
  have numbers : (items.zipIdx.map Prod.snd).Pairwise (· < ·) := by
    rw [List.zipIdx_map_snd]
    exact List.pairwise_lt_range' 1
  exact List.pairwise_map.mp numbers

/-- Places are entered in their order. -/
theorem pairwise_withPlaces (corpus : List SourceText) :
    (withPlaces corpus).Pairwise fun first later => first.1.Before later.1 := by
  have placeOf : ∀ {file line found}, onLine file line = some found →
      found.1 = ⟨file.2, line.2⟩ := by
    intro file line found read
    obtain ⟨header, -, rfl⟩ := Option.map_eq_some_iff.mp read
    rfl
  refine List.pairwise_flatMap.mpr ⟨?_, ?_⟩
  · intro file _
    refine List.pairwise_filterMap.mpr ((pairwise_zipIdx file.1.2).imp ?_)
    intro line later smaller found read found' read'
    rw [placeOf read, placeOf read']
    exact .inr ⟨rfl, smaller⟩
  · refine (pairwise_zipIdx corpus).imp ?_
    intro file later smaller found member found' member'
    obtain ⟨line, -, read⟩ := List.mem_filterMap.mp member
    obtain ⟨line', -, read'⟩ := List.mem_filterMap.mp member'
    rw [placeOf read, placeOf read']
    exact .inl smaller

theorem exists_mem_withPlaces {corpus : List SourceText} {place : Place} {header : Header}
    (declares : place.Declares corpus header) :
    ∃ declaration : Declaration, (place, declaration) ∈ withPlaces corpus ∧
      declaration.name = header.name := by
  have whole := declares
  obtain ⟨file, line, foundFile, foundLine, read⟩ := declares
  refine ⟨⟨header.name, header.kind, file.1, place.line + 1⟩, mem_withPlaces.mpr ⟨whole, ?_, rfl⟩,
    rfl⟩
  rw [foundFile]
  rfl

/-- A name has only one first place, and only one declaration stands there. -/
theorem FirstAt.unique {corpus : List SourceText} {place other : Place}
    {declaration declaration' : Declaration} (first : declaration.FirstAt corpus place)
    (second : declaration'.FirstAt corpus other) (named : declaration.name = declaration'.name) :
    declaration = declaration' := by
  have same : place = other := by
    rcases place.eq_or_before other with same | before | before
    · exact same
    · exact absurd before (second.first place _ first.declares named)
    · exact absurd before (first.first other _ second.declares named.symm)
  subst same
  obtain ⟨sameName, sameKind⟩ := Header.mk.inj (first.declares.unique second.declares)
  have sameFile := Option.some.inj (first.file.symm.trans second.file)
  have sameLine := first.line.trans second.line.symm
  obtain ⟨name, kind, file, line⟩ := declaration
  obtain ⟨name', kind', file', line'⟩ := declaration'
  rw [Declaration.mk.injEq]
  exact ⟨sameName, sameKind, sameFile, sameLine⟩

theorem firstAt_of_find? {corpus : List SourceText} {name : Text} {declaration : Declaration}
    (found : (inFiles corpus).find? (·.name == name) = some declaration) :
    declaration.name = name ∧ ∃ place, declaration.FirstAt corpus place := by
  rw [← map_snd_withPlaces, List.find?_map] at found
  obtain ⟨⟨place, declaration⟩, placed, rfl⟩ := Option.map_eq_some_iff.mp found
  obtain ⟨passes, before, after, whole, none⟩ := List.find?_eq_some_iff_append.mp placed
  have named : declaration.name = name := by simpa using passes
  obtain ⟨declares, file, line⟩ := mem_withPlaces.mp (List.mem_of_find?_eq_some placed)
  refine ⟨named, place, declares, ?_, file, line⟩
  intro other header declaresToo sameName earlier
  obtain ⟨declaration', member, named'⟩ := exists_mem_withPlaces declaresToo
  have ordered := pairwise_withPlaces corpus
  rw [whole] at member ordered
  rcases List.mem_append.mp member with front | behind
  · have passes' := none _ front
    simp [named', sameName, named] at passes'
  · rcases List.mem_cons.mp behind with same | behind
    · cases same
      exact earlier.asymm earlier
    · have later := List.rel_of_pairwise_cons (List.pairwise_append.mp ordered).2.1 behind
      exact earlier.asymm later

/-- The first declaration of a name is the one at the first place that declares it. -/
theorem find?_inFiles_iff {corpus : List SourceText} {name : Text} {declaration : Declaration} :
    (inFiles corpus).find? (·.name == name) = some declaration ↔
      declaration.name = name ∧ ∃ place, declaration.FirstAt corpus place := by
  constructor
  · exact firstAt_of_find?
  · rintro ⟨named, place, first⟩
    obtain ⟨declaration', member, named'⟩ := exists_mem_withPlaces first.declares
    have entered : declaration' ∈ inFiles corpus := by
      rw [← map_snd_withPlaces]
      exact List.mem_map_of_mem member
    have found : ((inFiles corpus).find? (·.name == name)).isSome = true :=
      List.find?_isSome.mpr ⟨declaration', entered, by simp [named', named]⟩
    obtain ⟨earliest, found⟩ := Option.isSome_iff_exists.mp found
    obtain ⟨sameName, other, firstToo⟩ := firstAt_of_find? found
    rw [first.unique firstToo (named.trans sameName.symm)]
    exact found

/-- As many declarations are entered as there are places that declare something. -/
theorem encard_places (corpus : List SourceText) :
    {place : Place | ∃ header, place.Declares corpus header}.encard = (inFiles corpus).length := by
  have distinct : ((withPlaces corpus).map Prod.fst).Nodup := by
    refine List.pairwise_map.mpr ((pairwise_withPlaces corpus).imp ?_)
    intro first later before same
    rw [same] at before
    exact before.asymm before
  have places : {place : Place | ∃ header, place.Declares corpus header} =
      ((withPlaces corpus).map Prod.fst).toFinset := by
    ext place
    simp only [Set.mem_ofPred_eq, List.coe_toFinset, List.mem_map]
    constructor
    · rintro ⟨header, declares⟩
      obtain ⟨declaration, member, -⟩ := exists_mem_withPlaces declares
      exact ⟨_, member, rfl⟩
    · rintro ⟨⟨_, declaration⟩, member, rfl⟩
      exact ⟨_, (mem_withPlaces.mp member).1⟩
  rw [places, Set.encard_coe_eq_coe_finsetCard, List.toFinset_card_of_nodup distinct,
    List.length_map, ← map_snd_withPlaces, List.length_map]

end Declaration

/-- The index of a corpus holds exactly the first declarations: the names that some place declares,
each with what stands at the first such place; the other places are counted; and entering more files
takes nothing away and changes nothing of what is held. -/
theorem Indexing.holds_first_declarations (corpus : List SourceText) :
    let indexing := ofFiles corpus
    (∀ name, indexing.index.contains name = true ↔
      ∃ (place : Place) (header : Header), place.Declares corpus header ∧ header.name = name) ∧
    (∀ name declaration, indexing.index.find? name = some declaration ↔
      declaration.name = name ∧ ∃ place, declaration.FirstAt corpus place) ∧
    (indexing.index.declarations.map Declaration.name).Nodup ∧
    {place : Place | ∃ header, place.Declares corpus header}.encard =
      indexing.index.size + indexing.index.redeclarations ∧
    indexing.files = corpus.length ∧
    ∀ more name declaration, indexing.index.find? name = some declaration →
      (ofFiles (corpus ++ more)).index.find? name = some declaration := by
  have holds : ∀ (files : List SourceText) name, (ofFiles files).index.find? name =
      (Declaration.inFiles files).find? (·.name == name) := by
    intro files name
    rw [index_ofFiles, Index.find?_ofDeclarations]
  refine ⟨?_, ?_, ?_, ?_, files_ofFiles corpus, ?_⟩
  · intro name
    rw [contains_ofFiles_iff]
    constructor
    · rintro ⟨file, inCorpus, line, inFile, header, read, named⟩
      obtain ⟨fileNumber, foundFile⟩ := List.mem_iff_getElem?.mp inCorpus
      obtain ⟨lineNumber, foundLine⟩ := List.mem_iff_getElem?.mp inFile
      exact ⟨⟨fileNumber, lineNumber⟩, header, ⟨file, line, foundFile, foundLine, read⟩, named⟩
    · rintro ⟨place, header, ⟨file, line, foundFile, foundLine, read⟩, named⟩
      exact ⟨file, List.mem_of_getElem? foundFile, line, List.mem_of_getElem? foundLine, header,
        read, named⟩
  · intro name declaration
    rw [holds, Declaration.find?_inFiles_iff]
  · rw [index_ofFiles]
    exact Index.nodup_ofDeclarations _
  · rw [index_ofFiles, Declaration.encard_places, ← Index.size_add_redeclarations]
    rfl
  · intro more name declaration found
    rw [holds] at found ⊢
    rw [Declaration.inFiles, List.flatMap_append, List.find?_append]
    change (List.find? _ (Declaration.inFiles corpus)).or _ = _
    rw [found]
    rfl

example : (Indexing.ofFiles [(⟨"a.kt"⟩, ["val x", "class x"]), (⟨"a.kt"⟩, ["fun x()"])]).index =
    ⟨[⟨"x", .property, ⟨"a.kt"⟩, 1⟩], 2⟩ := by decide +kernel

end TreeMigration
