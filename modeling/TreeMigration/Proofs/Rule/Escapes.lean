import TreeMigration.Rule.Line
import TreeMigration.Proofs.Substitution.Replacing

/-!
The escapes of the two values of a rule line. A pattern escapes backslashes and quotes, a
replacement backslashes only; both are read back by successive replacements. Of the two that a
pattern takes the first changes the backslashes that the second finds, but together they read every
text as one pass from the left would.

Each replacement takes backslashes out before a mark (`unescaped`, `replaceAll_escape`), and what
the two do to the front of a text is said by equations: two backslashes stand for one whatever
follows them, a backslash and a quote stand for the quote, and any other character stays
(`decodePattern_slash`, `decodePattern_quote`, `decodePattern_cons`). The case that could go wrong
is two backslashes before a quote, where the first replacement takes one of them out; it is then the
second that leaves the other alone.

Encoding is the inverse from one side: every text is the decoding of its encoding. Values that are
not well escaped are decoded all the same, and the last statement of the module covers them.
-/
namespace TreeMigration.RuleLine

def unescaped (mark : Char) : Text → Text
  | [] => []
  | [c] => [c]
  | c :: d :: rest =>
    if c = '\\' ∧ d = mark then mark :: unescaped mark rest else c :: unescaped mark (d :: rest)

theorem unescaped_escape (mark : Char) (rest : Text) :
    unescaped mark ('\\' :: mark :: rest) = mark :: unescaped mark rest := by
  rw [unescaped, if_pos ⟨rfl, rfl⟩]

/-- A character that begins no escape stays. -/
theorem unescaped_cons {mark c : Char} {rest : Text} (other : ¬ ['\\', mark] <+: c :: rest) :
    unescaped mark (c :: rest) = c :: unescaped mark rest := by
  cases rest with
  | nil => rfl
  | cons d rest =>
    rw [unescaped, if_neg]
    rintro ⟨rfl, rfl⟩
    exact other ⟨rest, rfl⟩

/-- Replacing escaped marks by the marks takes the backslashes before them out. -/
theorem replaceAll_escape (mark : Char) (t : Text) :
    Text.replaceAll ['\\', mark] [mark] t = unescaped mark t := by
  have filled : ['\\', mark] ≠ [] := by simp
  fun_induction unescaped mark t with
  | case1 => exact Text.replaceAll_nil _ _
  | case2 c =>
    rw [Text.replaceAll_cons filled _ (by simp), Text.replaceAll_nil]
  | case3 c d rest escape ih =>
    obtain ⟨rfl, rfl⟩ := escape
    have front := Text.replaceAll_append filled [d] rest
    rw [ih] at front
    exact front
  | case4 c d rest other ih =>
    rw [Text.replaceAll_cons filled, ih]
    intro begins
    obtain ⟨first, begins⟩ := List.cons_prefix_cons.mp begins
    exact other ⟨first.symm, (List.cons_prefix_cons.mp begins).1.symm⟩

theorem decodeReplacement_eq (t : Text) : decodeReplacement t = unescaped '\\' t :=
  replaceAll_escape '\\' t

theorem decodePattern_eq (t : Text) : decodePattern t = unescaped '\\' (unescaped '"' t) := by
  rw [← replaceAll_escape, ← replaceAll_escape]
  rfl

/-! ## What a pattern is read as, from its front -/

/-- Taking out the backslashes before quotes brings no backslash to the front. -/
theorem slash_prefix_of_unescaped {t : Text} (begins : ['\\'] <+: unescaped '"' t) :
    ['\\'] <+: t := by
  fun_cases unescaped '"' t with
  | case1 => exact begins
  | case2 c => exact begins
  | case3 c d rest escape => exact ⟨d :: rest, by rw [escape.1]; rfl⟩
  | case4 c d rest other =>
    rw [unescaped, if_neg other] at begins
    obtain ⟨same, -⟩ := List.cons_prefix_cons.mp begins
    exact ⟨d :: rest, by rw [same]; rfl⟩

theorem decodePattern_cons {c : Char} {rest : Text} (slash : ¬ ['\\', '\\'] <+: c :: rest)
    (quote : ¬ ['\\', '"'] <+: c :: rest) :
    decodePattern (c :: rest) = c :: decodePattern rest := by
  rw [decodePattern_eq, unescaped_cons quote, unescaped_cons, decodePattern_eq]
  intro begins
  obtain ⟨same, begins⟩ := List.cons_prefix_cons.mp begins
  exact slash (List.cons_prefix_cons.mpr ⟨same, slash_prefix_of_unescaped begins⟩)

theorem decodePattern_quote (rest : Text) :
    decodePattern ('\\' :: '"' :: rest) = '"' :: decodePattern rest := by
  rw [decodePattern_eq, unescaped_escape, unescaped_cons (by simp), decodePattern_eq]

/-- Two backslashes stand for one whatever follows. Before a quote the first replacement takes out
the second of them, and the second replacement leaves the first alone. -/
theorem decodePattern_slash (rest : Text) :
    decodePattern ('\\' :: '\\' :: rest) = '\\' :: decodePattern rest := by
  rw [decodePattern_eq, decodePattern_eq, unescaped_cons (by simp)]
  by_cases quote : ['"'] <+: rest
  · obtain ⟨rest, rfl⟩ := quote
    have kept : unescaped '"' ('"' :: rest) = '"' :: unescaped '"' rest := unescaped_cons (by simp)
    rw [List.singleton_append, unescaped_escape, unescaped_cons (by simp), kept]
  · have single : ¬ ['\\', '"'] <+: '\\' :: rest := by
      intro begins
      exact quote (List.cons_prefix_cons.mp begins).2
    rw [unescaped_cons single, unescaped_escape]

def escapedReplacementChar (c : Char) : Text := if c = '\\' then "\\\\" else [c]

/-- A replacement as written: backslashes are doubled. -/
def encodeReplacement (t : Text) : Text := t.flatMap escapedReplacementChar

def escapedPatternChar (c : Char) : Text :=
  if c = '\\' then "\\\\" else if c = '"' then "\\\"" else [c]

/-- A pattern as written: backslashes are doubled and quotes follow a backslash. -/
def encodePattern (t : Text) : Text := t.flatMap escapedPatternChar

theorem decodeReplacement_encodeReplacement (t : Text) :
    decodeReplacement (encodeReplacement t) = t := by
  rw [decodeReplacement_eq]
  induction t with
  | nil => rfl
  | cons c t ih =>
    rw [encodeReplacement, List.flatMap_cons, ← encodeReplacement, escapedReplacementChar]
    split
    · rename_i slash
      rw [slash]
      exact (unescaped_escape '\\' _).trans (congrArg _ ih)
    · rename_i plain
      rw [List.singleton_append, unescaped_cons, ih]
      intro begins
      exact plain (List.cons_prefix_cons.mp begins).1.symm

theorem decodePattern_encodePattern (t : Text) : decodePattern (encodePattern t) = t := by
  induction t with
  | nil => rfl
  | cons c t ih =>
    rw [encodePattern, List.flatMap_cons, ← encodePattern, escapedPatternChar]
    split
    · rename_i slash
      rw [slash]
      exact (decodePattern_slash _).trans (congrArg _ ih)
    · rename_i plain
      split
      · rename_i quote
        rw [quote]
        exact (decodePattern_quote _).trans (congrArg _ ih)
      · rw [List.singleton_append, decodePattern_cons, ih]
        · exact fun begins => plain (List.cons_prefix_cons.mp begins).1.symm
        · exact fun begins => plain (List.cons_prefix_cons.mp begins).1.symm

/-- Resolving escapes takes out backslashes and nothing else. -/
theorem filter_decodePattern (t : Text) :
    (decodePattern t).filter (· ≠ '\\') = t.filter (· ≠ '\\') := by
  rw [decodePattern, Text.filter_replaceAll (by simp) _ (by decide),
    Text.filter_replaceAll (by simp) _ (by decide)]

theorem mem_of_mem_encodeReplacement {c : Char} {t : Text} (member : c ∈ encodeReplacement t) :
    c ∈ t := by
  obtain ⟨d, inside, written⟩ := List.mem_flatMap.mp member
  rw [escapedReplacementChar] at written
  split at written
  · rename_i slash
    rw [slash] at inside
    have same : c = '\\' := by simpa using written
    rwa [same]
  · rwa [List.mem_singleton.mp written]

theorem mem_of_mem_encodePattern {c : Char} {t : Text} (member : c ∈ encodePattern t) :
    c = '\\' ∨ c ∈ t := by
  obtain ⟨d, inside, written⟩ := List.mem_flatMap.mp member
  rw [escapedPatternChar] at written
  split at written
  · exact .inl (by simpa using written)
  · split at written
    · rename_i quote
      have same : c = '\\' ∨ c = '"' := by simpa using written
      rw [quote] at inside
      exact same.imp_right fun same => by rwa [same]
    · exact .inr (List.mem_singleton.mp written ▸ inside)

/-! ## One pass -/

/-- What a pattern stands for, read once from the left: a backslash before a backslash or a quote is
taken out and the character after it passed over; any other character stays, also a backslash before
something else or at the end. -/
def resolved : Text → Text
  | '\\' :: '\\' :: rest => '\\' :: resolved rest
  | '\\' :: '"' :: rest => '"' :: resolved rest
  | c :: rest => c :: resolved rest
  | [] => []

/-- The two replacements read every text as one pass does, whether it is well escaped or not. -/
theorem decodePattern_eq_resolved (t : Text) : decodePattern t = resolved t := by
  -- the cases of the pass are the three ways a text can begin
  fun_induction resolved t with
  | case1 rest ih => rw [decodePattern_slash, ih]
  | case2 rest ih => rw [decodePattern_quote, ih]
  | case3 c rest notSlash notQuote ih =>
    rw [decodePattern_cons, ih]
    · rintro ⟨later, same⟩
      obtain ⟨rfl, rfl⟩ := List.cons.inj same
      exact notSlash later rfl rfl
    · rintro ⟨later, same⟩
      obtain ⟨rfl, rfl⟩ := List.cons.inj same
      exact notQuote later rfl rfl
  | case4 => rfl

example : decodePattern "\\\\\\\"\\" = "\\\"\\" := by decide

end TreeMigration.RuleLine
