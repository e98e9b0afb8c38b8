import Mathlib.Data.List.Basic
import SourceMend.Patch
import SourceMend.Proofs.Diff.Hunks
import SourceMend.Proofs.Text.Lines

/-!
Patches read back. A reader of patches goes by the numbers of lines that a hunk announces, so no
line can pass for a part of the format. It reads from a rendered patch the hunks that were written,
and applied to the old text they give the new one.
-/
namespace SourceMend.Patch

open Diff

/-! Reading -/

def readNumber? (t : Text) : Option (Nat × Text) :=
  let digits := t.takeWhile Char.isDigit
  if digits.isEmpty then none
  else some (Nat.ofDigitChars 10 digits 0, t.dropWhile Char.isDigit)

/-- The number of lines before a range, and how many lines it has. -/
def readRange? (t : Text) : Option ((Nat × Nat) × Text) := do
  let (first, rest) ← readNumber? t
  let (count, rest) ←
    match rest with
    | ',' :: rest => readNumber? rest
    | rest => some (1, rest)
  return ((if count = 0 then first else first - 1, count), rest)

def signed? : Char → Text → Option (Line Text)
  | ' ', line => some (.context line)
  | '-', line => some (.delete line)
  | '+', line => some (.insert line)
  | _, _ => none

/-- The first line. It has a line feed unless the line behind it says that there is none. -/
def readLine? : Text → Option (Line Text × Text)
  | [] => none
  | '\n' :: rest => some (.context ['\n'], rest)
  | sign :: t =>
    let line := t.takeWhile (· ≠ '\n')
    let rest := t.dropWhile (· ≠ '\n')
    match rest.dropPrefix? missingNewline, rest with
    | some rest, _ => (signed? sign line).map (·, rest)
    | none, feed :: rest => (signed? sign (line ++ [feed])).map (·, rest)
    | none, [] => none

/-- As many lines as make up these numbers of old and new ones. -/
def readLines? (old new : Nat) (t : Text) : Option (List (Line Text) × Text) :=
  if old = 0 ∧ new = 0 then some ([], t)
  else
    match readLine? t with
    | none => none
    | some (.context x, rest) =>
      if 0 < old ∧ 0 < new then
        (readLines? (old - 1) (new - 1) rest).map fun (lines, rest) => (.context x :: lines, rest)
      else none
    | some (.delete x, rest) =>
      if 0 < old then
        (readLines? (old - 1) new rest).map fun (lines, rest) => (.delete x :: lines, rest)
      else none
    | some (.insert x, rest) =>
      if 0 < new then
        (readLines? old (new - 1) rest).map fun (lines, rest) => (.insert x :: lines, rest)
      else none
termination_by old + new

def readHunk? (t : Text) : Option (Hunk Text × Text) := do
  let (old, t) ← readRange? (← t.dropPrefix? "@@ -".toList)
  let (new, t) ← readRange? (← t.dropPrefix? " +".toList)
  let (lines, t) ← readLines? old.2 new.2 (← t.dropPrefix? " @@\n".toList)
  return (⟨old.1, new.1, lines⟩, t)

def readHunks? (t : Text) : Option (List (Hunk Text)) :=
  if t = [] then some []
  else
    match readHunk? t with
    | none => none
    | some (h, rest) =>
      if rest.length < t.length then (readHunks? rest).map (h :: ·) else none
termination_by t.length

/-- What a patch of a file makes of its text. -/
def result? (path : String) (patch before : Text) : Option Text :=
  if patch = [] then some before
  else do
    let hs ← readHunks? (← patch.dropPrefix? (header path))
    return (← applyHunks hs before.splitLines).flatten

/-! Numbers and ranges -/

theorem dropPrefix?_append (a b : Text) : (a ++ b).dropPrefix? a = some b :=
  List.dropPrefix?_eq_some_iff.2 ⟨a, rfl, by simp⟩

/-- A run ends where something else follows. -/
theorem run_append {p : Char → Bool} {a : Text} (ha : ∀ c ∈ a, p c = true) {c : Char}
    (hc : p c = false) (rest : Text) :
    (a ++ c :: rest).takeWhile p = a ∧ (a ++ c :: rest).dropWhile p = c :: rest := by
  rw [List.takeWhile_append_of_pos ha, List.dropWhile_append_of_pos ha]
  simp [hc]

theorem readNumber?_number (n : Nat) {c : Char} (hc : c.isDigit = false) (rest : Text) :
    readNumber? (number n ++ c :: rest) = some (n, c :: rest) := by
  have hdigits : ∀ d ∈ number n, d.isDigit = true := fun d hd =>
    Nat.isDigit_of_mem_toDigits (by decide) (by decide) hd
  have hvalue : Nat.ofDigitChars 10 (number n) 0 = n :=
    Nat.ofDigitChars_toDigits (by decide) (by decide)
  have hne : (number n).isEmpty = false := by simp [number, Nat.toDigits_ne_nil]
  obtain ⟨htake, hdrop⟩ := run_append hdigits hc rest
  rw [readNumber?, htake, hdrop]
  simp [hne, hvalue]

theorem readRange?_writeRange (before count : Nat) (rest : Text) :
    readRange? (writeRange before count ++ ' ' :: rest) = some ((before, count), ' ' :: rest) := by
  by_cases hone : count = 1
  · rw [writeRange, if_pos hone, List.append_nil, readRange?, readNumber?_number _ (by decide)]
    simp [hone]
  · have hcount := readNumber?_number count (show ' '.isDigit = false by decide) rest
    rw [writeRange, if_neg hone, List.append_assoc, List.cons_append, readRange?,
      readNumber?_number _ (by decide)]
    simp only [Option.bind_eq_bind, Option.bind_some, hcount]
    by_cases hnone : count = 0 <;> simp [hnone]

/-! Lines -/

/-- The text does not start with a note on the line before it. -/
def Plain (t : Text) : Prop := t.head? ≠ some '\\'

theorem readLine?_writeSigned {sign : Char} (hsign : sign ≠ '\n') {line : Text}
    (hline : line.IsLine) {rest : Text} (hrest : Plain rest) :
    readLine? (writeSigned sign line ++ rest) = (signed? sign line).map (·, rest) := by
  obtain ⟨body, hbody, hends⟩ := hline
  have hrun : ∀ c ∈ body, decide (c ≠ '\n') = true := fun c hc =>
    decide_eq_true fun h => hbody (h ▸ hc)
  have hlf : decide ('\n' ≠ '\n') = false := by decide
  rw [writeSigned]
  rcases hends with rfl | rfl
  · have hunended : Text.isTerminated line = false := by
      simpa [Text.isTerminated] using fun h => hbody (List.mem_of_getLast? h)
    obtain ⟨htake, hdrop⟩ := run_append hrun hlf (missingNewline.tail ++ rest)
    have hnote : '\n' :: (missingNewline.tail ++ rest) = missingNewline ++ rest := rfl
    rw [hnote] at htake hdrop
    rw [if_neg (by simp [hunended]), List.append_assoc, List.cons_append, readLine?]
    · simp only [htake, hdrop, dropPrefix?_append]
    · exact hsign
  · have hended : Text.isTerminated (body ++ ['\n']) = true := by
      simp [Text.isTerminated]
    obtain ⟨htake, hdrop⟩ := run_append hrun hlf rest
    have hnone : ('\n' :: rest).dropPrefix? missingNewline = none := by
      refine Option.eq_none_iff_forall_not_mem.2 fun left hleft => ?_
      obtain ⟨note, hnote, hsame⟩ := List.dropPrefix?_eq_some_iff.1 hleft
      rw [eq_of_beq hsame] at hnote
      exact hrest ((List.cons.inj hnote).2 ▸ rfl)
    rw [if_pos hended, List.append_nil, List.cons_append, List.append_assoc, List.singleton_append,
      readLine?]
    · simp only [htake, hdrop, hnone]
    · exact hsign

theorem readLine?_writeLine {l : Line Text} (hl : l.value.IsLine) {rest : Text}
    (hrest : Plain rest) : readLine? (writeLine l ++ rest) = some (l, rest) := by
  cases l with
  | context x =>
    by_cases hx : x = ['\n']
    · rw [writeLine, if_pos hx, hx]
      rfl
    · rw [writeLine, if_neg hx]
      exact readLine?_writeSigned (by decide) hl hrest
  | delete x => exact readLine?_writeSigned (by decide) hl hrest
  | insert x => exact readLine?_writeSigned (by decide) hl hrest

theorem plain_writeLine (l : Line Text) (rest : Text) : Plain (writeLine l ++ rest) := by
  cases l with
  | context x =>
    by_cases hx : x = ['\n']
    · simp [Plain, writeLine, hx]
    · simp [Plain, writeLine, hx, writeSigned]
  | delete x => simp [Plain, writeLine, writeSigned]
  | insert x => simp [Plain, writeLine, writeSigned]

theorem plain_flatMap_writeLine (lines : List (Line Text)) {rest : Text} (h : Plain rest) :
    Plain (lines.flatMap writeLine ++ rest) := by
  cases lines with
  | nil => exact h
  | cons l lines =>
    rw [List.flatMap_cons, List.append_assoc]
    exact plain_writeLine l _

theorem readLines?_writeLines {lines : List (Line Text)} (hlines : ∀ l ∈ lines, l.value.IsLine)
    {rest : Text} (hrest : Plain rest) :
    readLines? (lines.filterMap Line.old?).length (lines.filterMap Line.new?).length
      (lines.flatMap writeLine ++ rest) = some (lines, rest) := by
  induction lines with
  | nil => simp [readLines?]
  | cons l lines ih =>
    obtain ⟨hl, hlater⟩ := List.forall_mem_cons.1 hlines
    have hread := readLine?_writeLine hl (plain_flatMap_writeLine lines hrest)
    rw [List.flatMap_cons, List.append_assoc, readLines?, hread]
    cases l with
    | context x => simp [Line.old?, Line.new?, ih hlater]
    | delete x => simp [List.filterMap_cons, Line.old?, Line.new?, ih hlater]
    | insert x => simp [List.filterMap_cons, Line.old?, Line.new?, ih hlater]

/-! Hunks -/

theorem writeHunk_append (h : Hunk Text) (rest : Text) :
    writeHunk h ++ rest = "@@ -".toList ++ (writeRange h.oldBefore h.old.length ++
      (" +".toList ++ (writeRange h.newBefore h.new.length ++
        (" @@\n".toList ++ (h.lines.flatMap writeLine ++ rest))))) := by
  unfold writeHunk
  simp only [List.append_assoc]

theorem readHunk?_writeHunk {h : Hunk Text} (hlines : ∀ l ∈ h.lines, l.value.IsLine) {rest : Text}
    (hrest : Plain rest) : readHunk? (writeHunk h ++ rest) = some (h, rest) := by
  have hold (t : Text) : readRange? (writeRange h.oldBefore h.old.length ++ (" +".toList ++ t)) =
      some ((h.oldBefore, h.old.length), " +".toList ++ t) := readRange?_writeRange _ _ ('+' :: t)
  have hnew (t : Text) : readRange? (writeRange h.newBefore h.new.length ++ (" @@\n".toList ++ t)) =
      some ((h.newBefore, h.new.length), " @@\n".toList ++ t) :=
    readRange?_writeRange _ _ ('@' :: '@' :: '\n' :: t)
  have hbody : readLines? h.old.length h.new.length (h.lines.flatMap writeLine ++ rest) =
      some (h.lines, rest) := readLines?_writeLines hlines hrest
  rw [writeHunk_append, readHunk?]
  simp only [dropPrefix?_append, hold, hnew, hbody, Option.bind_eq_bind, Option.bind_some]
  rfl

theorem plain_flatMap_writeHunk (hs : List (Hunk Text)) : Plain (hs.flatMap writeHunk) := by
  cases hs with
  | nil => simp [Plain]
  | cons h hs =>
    rw [List.flatMap_cons, writeHunk_append]
    simp [Plain]

theorem readHunks?_writeHunks {hs : List (Hunk Text)}
    (hlines : ∀ h ∈ hs, ∀ l ∈ h.lines, l.value.IsLine) :
    readHunks? (hs.flatMap writeHunk) = some hs := by
  induction hs with
  | nil => simp [readHunks?]
  | cons h hs ih =>
    obtain ⟨hh, hlater⟩ := List.forall_mem_cons.1 hlines
    have hread := readHunk?_writeHunk hh (plain_flatMap_writeHunk hs)
    have hne : writeHunk h ≠ [] := by
      rw [← List.append_nil (writeHunk h), writeHunk_append]
      simp
    rw [List.flatMap_cons, readHunks?, if_neg (by simp [hne]), hread]
    simp [ih hlater, hne]

/-! The header of the differ, and the end of a patch -/

theorem cutHeader_differHeader {hs : List (Hunk Text)} (hne : hs ≠ []) :
    cutHeader (differHeader ++ hs.flatMap writeHunk) = hs.flatMap writeHunk := by
  obtain ⟨h, later, rfl⟩ := List.exists_cons_of_ne_nil hne
  rw [List.flatMap_cons, writeHunk_append]
  rfl

theorem isTerminated_append {t : Text} (ht : t.isTerminated) (start : Text) :
    (start ++ t).isTerminated := by
  have hlast : t.getLast? = some '\n' := of_decide_eq_true ht
  simp [Text.isTerminated, List.getLast?_append, hlast]

theorem isTerminated_append_flatMap {α : Type} {write : α → Text} {xs : List α}
    (hwrite : ∀ x ∈ xs, (write x).isTerminated) {start : Text} (hstart : start.isTerminated) :
    (start ++ xs.flatMap write).isTerminated := by
  induction xs generalizing start with
  | nil => simpa using hstart
  | cons x xs ih =>
    obtain ⟨hx, hlater⟩ := List.forall_mem_cons.1 hwrite
    rw [List.flatMap_cons, ← List.append_assoc]
    exact ih hlater (isTerminated_append hx start)

theorem isTerminated_writeLine (l : Line Text) : (writeLine l).isTerminated := by
  have hsigned (sign : Char) (line : Text) : (writeSigned sign line).isTerminated := by
    rw [writeSigned]
    split
    next h => rw [List.append_nil]; exact isTerminated_append h [sign]
    next => exact isTerminated_append rfl (sign :: line)
  cases l with
  | context line =>
    rw [writeLine]
    split
    next h => rw [h]; rfl
    next => exact hsigned ' ' line
  | delete line => exact hsigned '-' line
  | insert line => exact hsigned '+' line

theorem isTerminated_writeHunk (h : Hunk Text) : (writeHunk h).isTerminated :=
  isTerminated_append_flatMap (fun l _ => isTerminated_writeLine l)
    (isTerminated_append (t := " @@\n".toList) rfl _)

/-! Rendered patches -/

/-- The hunks are the whole difference of two texts: they stand in order and do not overlap, each
shows what the texts have at its place, and applied to the one they give the other. -/
structure Describes (hs : List (Hunk Text)) (before after : Text) : Prop where
  ordered : hs.Pairwise fun a b => a.oldBefore < b.oldBefore ∧ a.newBefore < b.newBefore ∧
    a.oldBefore + a.old.length ≤ b.oldBefore ∧ a.newBefore + a.new.length ≤ b.newBefore
  shown : ∀ h ∈ hs, h.old <+: before.splitLines.drop h.oldBefore ∧
    h.new <+: after.splitLines.drop h.newBefore
  applied : (applyHunks hs before.splitLines).map List.flatten = some after

theorem covers_script (before after : Text) :
    Diff.Covers 0 0 (hunks (script before after)) before.splitLines after.splitLines :=
  (turns_search before.splitLines after.splitLines).compact.covers

theorem describes_script (before after : Text) :
    Describes (hunks (script before after)) before after where
  ordered := (covers_script before after).pairwise
  shown := (covers_script before after).prefix_drop
  applied := by
    rw [applyHunks, (covers_script before after).applyFrom_eq, Option.map_some,
      Text.flatten_splitLines]

namespace Describes

variable {hs : List (Hunk Text)} {before after : Text}

theorem isLine_value (hd : Describes hs before after) :
    ∀ h ∈ hs, ∀ l ∈ h.lines, l.value.IsLine := by
  intro h hh l hl
  obtain ⟨hold, hnew⟩ := hd.shown h hh
  rcases Hunk.value_mem hl with hmem | hmem
  · exact Text.isLine_of_mem_splitLines (List.mem_of_mem_drop (hold.subset hmem))
  · exact Text.isLine_of_mem_splitLines (List.mem_of_mem_drop (hnew.subset hmem))

theorem ne_nil (hd : Describes hs before after) (hne : before ≠ after) : hs ≠ [] := by
  rintro rfl
  have happlied := hd.applied
  rw [applyHunks, applyFrom, Option.map_some, Text.flatten_splitLines] at happlied
  exact hne (Option.some.inj happlied)

end Describes

theorem render_of_ne (path : String) {before after : Text} (hne : before ≠ after) :
    render path before after = header path ++ (hunks (script before after)).flatMap writeHunk := by
  have hhunks := (describes_script before after).ne_nil hne
  have hheader : (header path).isTerminated := by
    rw [header, String.toList_append]
    exact isTerminated_append rfl _
  have hended : (header path ++ (hunks (script before after)).flatMap writeHunk).isTerminated :=
    isTerminated_append_flatMap (fun h _ => isTerminated_writeHunk h) hheader
  rw [render, if_neg hne, differBody, cutHeader_differHeader hhunks]
  exact if_pos hended

/-- A patch is empty if the texts are equal, and else a header and hunks that can be read back and
are the whole difference of the texts. So whoever reads the patch can make the one text of the
other. -/
theorem render_faithful (path : String) (before after : Text) :
    (render path before after = [] ↔ before = after) ∧
    (before ≠ after → ∃ hs, hs ≠ [] ∧
      render path before after = header path ++ hs.flatMap writeHunk ∧
      readHunks? (hs.flatMap writeHunk) = some hs ∧ Describes hs before after) ∧
    result? path (render path before after) before = some after := by
  have hd := describes_script before after
  have hread := readHunks?_writeHunks hd.isLine_value
  have hheader : header path ≠ [] := by simp [header, toString]
  by_cases heq : before = after
  · simp [render, result?, heq]
  · have hrender := render_of_ne path heq
    refine ⟨by simp [hrender, heq, hheader], fun _ => ⟨_, hd.ne_nil heq, hrender, hread, hd⟩, ?_⟩
    rw [hrender, result?, if_neg (by simp [hheader]), dropPrefix?_append]
    obtain ⟨lines, hlines, hafter⟩ := Option.map_eq_some_iff.1 hd.applied
    simp only [Option.bind_eq_bind, Option.bind_some, hread, hlines]
    exact congrArg some hafter

theorem render_faithful_unended :
    let before := "one\ntwo".toList
    let after := "one\nthree\n".toList
    let patch := ("diff --git a/notes b/notes\n--- a/notes\n+++ b/notes\n@@ -1,2 +1,2 @@\n one\n" ++
      "-two\n\\ No newline at end of file\n+three\n").toList
    render "notes" before after = patch ∧ result? "notes" patch before = some after := by
  intro before after patch
  have hrender : render "notes" before after = patch := by decide +kernel
  exact ⟨hrender, hrender ▸ (render_faithful "notes" before after).2.2⟩

end SourceMend.Patch
