import SourceMend.Proofs.Bytes.Frames
import SourceMend.Proofs.RuleSet.Cycles
import SourceMend.Proofs.RuleSet.Order

/-!
Slices. The spans and the frames of a text start and end at boundaries, and so do the matches of a
pattern. A rule cuts its text at the ends of matches only, and the validator at the ends of sites
and behind a line feed, so neither of them cuts a character in two.
-/
namespace SourceMend.Bytes

open Scope (Control Label)

/-! What is cut -/

/-- The text with the replacements put in. What stays is cut out of the text, from byte `copied`
on. -/
def assemble? (text : Text) (copied : Nat) : List Replacement → Option Text
  | [] => slice? text copied (Text.utf8 text).length
  | e :: rest => do
    let kept ← slice? text copied e.start
    let behind ← assemble? text e.stop rest
    some (kept ++ e.new ++ behind)

def mend? (r : Rule) (text : Text) (ctx : Context) : Option Text :=
  match r.replacement with
  | none => some text
  | some own => do
    let scope ← scan text ctx.dialect
    assemble? text 0 (r.replacements scope own ctx.path text)

/-- The byte behind the last line feed. -/
def lineStart (src : List UInt8) : Nat :=
  src.length - (src.reverse.takeWhile fun b => seen b ≠ '\n').length

def locate? (text : Text) (offset : Nat) : Option Location := do
  let before ← slice? text 0 offset
  let line ← slice? before (lineStart (Text.utf8 before)) (Text.utf8 before).length
  some ⟨(before.count '\n' + 1).toUInt64, (line.length + 1).toUInt64⟩

def siteFinding? (path : String) (text : Text) (r : Rule) (site : MatchSite) :
    Option (Option Finding) :=
  match r.classify site.placement with
  | none => some none
  | some (kind, severity) => do
    let location ← locate? text site.start
    let quoted ← slice? text site.start site.stop
    some <| some
      { path
        ruleId := r.id
        category := r.category
        kind
        severity
        location
        excerpt := String.ofList (excerpt quoted)
        message := r.findingMessage kind }

def validate? (s : RuleSet) (path : String) (text : Text) (d : Dialect) :
    Option (List Finding) := do
  let scope ← scan text d
  let found ← s.rules.mapM fun r => (r.matchSites text scope).mapM (siteFinding? path text r)
  some ((found.flatten.filterMap id).mergeSort Finding.notAfter)

/-! Spans and frames -/

section Boundaries

variable {text : Text} {d : Dialect}

theorem isBoundary_passed {s : Scope.State} (h : Scope.State.Passes d { rest := text } s) :
    isBoundary (Text.utf8 text) s.pos = true := by
  obtain ⟨front, htext, hpos⟩ := h.exists_read
  exact isBoundary_iff.2 ⟨front, s.rest, htext, by rw [hpos, Nat.zero_add]⟩

theorem isBoundary_covers {pos : Nat} {spans : List Span} {L : List Label}
    (h : Covers pos spans L) (front : Text) (hfront : Text.size front = pos) {s : Span}
    (hs : s ∈ spans) :
    let src := Text.utf8 (front ++ L.map Prod.snd)
    isBoundary src s.start = true ∧ isBoundary src s.stop = true := by
  induction h generalizing front with
  | nil => cases hs
  | @cons kind pos t spans L ht hhead hcov ih =>
    have hstop : Text.size (front ++ t) = pos + Text.size t := by rw [Text.size_append, hfront]
    rw [List.map_append, Scope.map_snd_mk]
    rcases List.mem_cons.1 hs with rfl | hs
    · exact ⟨isBoundary_iff.2 ⟨front, t ++ L.map Prod.snd, rfl, hfront⟩,
        isBoundary_iff.2 ⟨front ++ t, L.map Prod.snd, (List.append_assoc ..).symm, hstop⟩⟩
    · rw [← List.append_assoc]
      exact ih (front ++ t) hstop hs

theorem isBoundary_span {s : Span} (hs : s ∈ (ScopeMap.scan text d).spans) :
    isBoundary (Text.utf8 text) s.start = true ∧ isBoundary (Text.utf8 text) s.stop = true := by
  have h := isBoundary_covers (covers_scan text d) [] rfl hs
  rwa [Scope.map_snd_labels] at h

theorem isBoundary_frame {f : Frame} (hf : f ∈ (ScopeMap.scan text d).frames) :
    isBoundary (Text.utf8 text) f.start = true ∧ isBoundary (Text.utf8 text) f.stop = true := by
  have hpass := Scope.State.passes_run d { rest := text }
  have hwithin : (({ rest := text } : Scope.State).run d).control.Within
      (isBoundary (Text.utf8 text) · = true) :=
    hpass.within_passed (by simp [Control.Within]) fun u hu _ => isBoundary_passed hu
  obtain ⟨i, hi⟩ := List.getElem?_of_mem hf
  obtain ⟨b, hb, hstart, hstop⟩ := ScopeMap.exists_bracket hi
  obtain ⟨hbstart, hbstop⟩ := hwithin b (Array.mem_of_getElem? hb)
  rw [← hstart, hstop]
  refine ⟨hbstart, ?_⟩
  cases hp : b.stop with
  | none => exact isBoundary_passed hpass
  | some p => exact hbstop p hp

end Boundaries

/-! Rewriting -/

/-- Replacements that lie side by side at boundaries can be put in. -/
theorem assemble?_eq (front back : Text) {edits : List Replacement}
    (hbounds : ∀ e ∈ edits, isBoundary (Text.utf8 (front ++ back)) e.start = true ∧
      isBoundary (Text.utf8 (front ++ back)) e.stop = true ∧ e.start ≤ e.stop)
    (hfirst : ∀ e ∈ edits.head?, Text.size front ≤ e.start)
    (hsides : edits.Pairwise fun a b => a.stop ≤ b.start) :
    assemble? (front ++ back) (Text.size front) edits =
      some (Text.splice (Text.size front) back edits) := by
  induction edits generalizing front back with
  | nil =>
    have hslice := slice?_between front back []
    rw [List.append_nil] at hslice
    rw [assemble?, Text.length_utf8, hslice, Text.splice]
  | cons e rest ih =>
    obtain ⟨⟨hstart, hstop, hle⟩, hrest⟩ := List.forall_mem_cons.1 hbounds
    obtain ⟨hnext, hsides⟩ := List.pairwise_cons.1 hsides
    obtain ⟨kept, tail, rfl, hkept⟩ := exists_between_of_isBoundary hstart (hfirst e rfl)
    rw [← List.append_assoc] at hstop hrest ⊢
    obtain ⟨old, after, rfl, hold⟩ := exists_between_of_isBoundary hstop (hkept ▸ hle)
    have hsize : e.start - Text.size front = Text.size kept := by
      rw [← hkept, Text.size_append, Nat.add_sub_cancel_left]
    have hskip : e.stop - Text.size front = Text.size (kept ++ old) := by
      rw [← hold, List.append_assoc, Text.size_append, Nat.add_sub_cancel_left]
    have hbehind := ih (front ++ kept ++ old) after (by rwa [List.append_assoc])
      (fun e' he' => hold ▸ hnext e' (List.mem_of_mem_head? he')) hsides
    rw [hold, List.append_assoc] at hbehind
    rw [assemble?, ← hkept, slice?_between, hbehind, Text.splice, hsize, hskip,
      Text.takeBytes_size_append, ← List.append_assoc, Text.dropBytes_size_append]
    rfl

theorem mend?_eq (r : Rule) (text : Text) (ctx : Context) :
    mend? r text ctx = some (r.apply text ctx).text := by
  rw [mend?]
  cases hown : r.replacement with
  | none => simp [Rule.apply, Rule.isFix, hown]
  | some own =>
    obtain ⟨hlt, hsides⟩ :=
      r.replacements_sideBySide (ScopeMap.scan text ctx.dialect) own ctx.path text
    rw [scan_eq, r.apply_eq_splice hown]
    refine assemble?_eq [] text (fun e he => ?_) (fun _ _ => Nat.zero_le _) hsides
    obtain ⟨m, hm, rfl⟩ := List.mem_map.1 he
    obtain ⟨p, hp, hadm⟩ := r.mem_rewritesFrom _ hm
    obtain ⟨before, old, after, rfl, -, hstart, hstop⟩ :=
      r.exists_parts_of_mem_places hp ((r.admittedAt?_eq_some_iff _).1 hadm).1
    exact ⟨isBoundary_iff.2 ⟨before, old ++ after, List.append_assoc .., hstart.symm⟩,
      isBoundary_iff.2 ⟨before ++ old, after, rfl, hstop.symm⟩, Nat.le_of_lt (hlt _ he)⟩

/-! Validating -/

theorem of_mem_utf8_singleton {p : Char → Bool} (hp : Coarse p) {c : Char} {b : UInt8}
    (h : b ∈ Text.utf8 [c]) : p (seen b) = p c := by
  rw [Text.utf8_cons, Text.utf8_nil, List.append_nil] at h
  rcases List.mem_cons.1 h with rfl | h
  · exact hp.lead c
  · exact hp.trail h

/-- The last bytes with a property are those of the last characters with it. -/
theorem takeWhile_reverse_utf8 {p : Char → Bool} (hp : Coarse p) (t : Text) :
    (Text.utf8 t).reverse.takeWhile (fun b => p (seen b)) =
      (Text.utf8 (t.reverse.takeWhile p).reverse).reverse := by
  suffices h : ∀ s : Text, (Text.utf8 s.reverse).reverse.takeWhile (fun b => p (seen b)) =
      (Text.utf8 (s.takeWhile p).reverse).reverse by simpa using h t.reverse
  intro s
  induction s with
  | nil => rfl
  | cons c s ih =>
    rw [List.reverse_cons, Text.utf8_append, List.reverse_append]
    by_cases hc : p c = true
    · have hall : ∀ b ∈ (Text.utf8 [c]).reverse, p (seen b) = true := fun b hb => by
        rw [of_mem_utf8_singleton hp (List.mem_reverse.1 hb), hc]
      rw [List.takeWhile_append_of_pos hall, ih, List.takeWhile_cons_of_pos hc, List.reverse_cons,
        Text.utf8_append, List.reverse_append]
    · obtain ⟨b, bs, hbytes⟩ : ∃ b bs, (Text.utf8 [c]).reverse = b :: bs :=
        List.exists_cons_of_ne_nil (by simp)
      have hb : p (seen b) = p c :=
        of_mem_utf8_singleton hp (List.mem_reverse.1 (hbytes ▸ List.mem_cons_self))
      rw [hbytes, List.cons_append, List.takeWhile_cons_of_neg (by rwa [hb]),
        List.takeWhile_cons_of_neg hc]
      rfl

/-- The last line of a text starts behind its last line feed. -/
theorem lineStart_eq (before : Text) : lineStart (Text.utf8 before) =
    Text.size (before.reverse.dropWhile (· ≠ '\n')).reverse := by
  have hsplit : (before.reverse.dropWhile (· ≠ '\n')).reverse ++
      (before.reverse.takeWhile (· ≠ '\n')).reverse = before := by
    rw [← List.reverse_append, List.takeWhile_append_dropWhile, List.reverse_reverse]
  have hsize := congrArg Text.size hsplit
  rw [Text.size_append] at hsize
  rw [lineStart, takeWhile_reverse_utf8 (coarse_ne (by decide)), List.length_reverse,
    Text.length_utf8, Text.length_utf8]
  omega

theorem slice?_lineStart (before : Text) :
    slice? before (lineStart (Text.utf8 before)) (Text.utf8 before).length =
      some (before.reverse.takeWhile (· ≠ '\n')).reverse := by
  have hslice := slice?_between (before.reverse.dropWhile (· ≠ '\n')).reverse
    (before.reverse.takeWhile (· ≠ '\n')).reverse []
  rw [List.append_nil, ← List.reverse_append, List.takeWhile_append_dropWhile,
    List.reverse_reverse] at hslice
  rwa [lineStart_eq, Text.length_utf8]

theorem locate?_eq (before rest : Text) :
    locate? (before ++ rest) (Text.size before) = some (.after before) := by
  have hbefore : slice? (before ++ rest) 0 (Text.size before) = some before :=
    slice?_between [] before rest
  simp only [locate?, hbefore, Option.bind_eq_bind, Option.bind_some, slice?_lineStart,
    List.length_reverse]
  rfl

theorem siteFinding?_eq (path : String) {text : Text} {r : Rule} {scope : ScopeMap}
    {site : MatchSite} (h : site ∈ r.matchSites text scope) :
    siteFinding? path text r site = some (RuleSet.siteFinding? path text r site) := by
  obtain ⟨before, old, after, rfl, -, hstart, hstop⟩ := r.exists_parts_of_mem_matchSites scope h
  have hlocate := locate?_eq before (old ++ after)
  rw [← List.append_assoc] at hlocate
  have hquote : Text.takeBytes (site.stop - site.start)
      (Text.dropBytes site.start (before ++ old ++ after)) = old := by
    rw [hstart, hstop, Text.size_append, Nat.add_sub_cancel_left, List.append_assoc,
      Text.dropBytes_size_append, Text.takeBytes_size_append]
  have hfront : Text.takeBytes site.start (before ++ old ++ after) = before := by
    rw [hstart, List.append_assoc, Text.takeBytes_size_append]
  rw [siteFinding?, RuleSet.siteFinding?, hquote, hfront]
  cases r.classify site.placement with
  | none => rfl
  | some found =>
    obtain ⟨kind, severity⟩ := found
    simp only [hstart, hstop, hlocate, slice?_between, Option.bind_eq_bind, Option.bind_some,
      Option.map_some]

theorem validate?_eq (s : RuleSet) (path : String) (text : Text) (d : Dialect) :
    validate? s path text d = some (s.validate path text d) := by
  have hrule (r : Rule) : (r.matchSites text (ScopeMap.scan text d)).mapM
      (siteFinding? path text r) =
      some ((r.matchSites text (ScopeMap.scan text d)).map (RuleSet.siteFinding? path text r)) :=
    mapM_eq_map fun _ hsite => siteFinding?_eq path hsite
  rw [validate?, scan_eq, Option.bind_eq_bind, Option.bind_some, mapM_eq_map fun r _ => hrule r]
  simp only [Option.bind_eq_bind, Option.bind_some, RuleSet.validate_eq, List.filterMap_flatten,
    List.map_map, List.flatMap_def, Function.comp_def, List.filterMap_map, id_eq]

/-- Whatever the text is, the scanner reads no byte that is not there, takes no byte inside a
character for code and looks up no bracket that is not recorded, and all that the scanner, a rule
and the validator cut out of the text starts and ends at boundaries. The spans, the frames and the
sites start and end at boundaries too. -/
theorem slices_at_boundaries (text : Text) (d : Dialect) :
    let src := Text.utf8 text
    let scope := ScopeMap.scan text d
    src = (String.ofList text).toUTF8.data.toList ∧
    scan text d = some scope ∧
    (∀ s ∈ scope.spans, s.start < s.stop ∧ isBoundary src s.start ∧ isBoundary src s.stop) ∧
    (∀ f ∈ scope.frames, f.start < f.stop ∧ isBoundary src f.start ∧ isBoundary src f.stop) ∧
    (∀ (r : Rule) (path : String),
      mend? r text ⟨path, d⟩ = some (r.apply text ⟨path, d⟩).text) ∧
    (∀ (r : Rule) (any : ScopeMap), ∀ site ∈ r.matchSites text any,
      site.start < site.stop ∧ isBoundary src site.start ∧ isBoundary src site.stop) ∧
    ∀ (s : RuleSet) (path : String), validate? s path text d = some (s.validate path text d) := by
  refine ⟨Text.utf8_eq text, scan_eq text d, fun s hs => ?span, fun f hf => ?frame,
    fun r path => mend?_eq r text ⟨path, d⟩, fun r any site hsite => ?site,
    fun s path => validate?_eq s path text d⟩
  case span => exact ⟨((covers_scan text d).bounds hs).2.1, isBoundary_span hs⟩
  case frame => exact ⟨(ScopeMap.frame_bounds hf).1, isBoundary_frame hf⟩
  case site =>
    obtain ⟨before, old, after, rfl, hold, hstart, hstop⟩ :=
      r.exists_parts_of_mem_matchSites any hsite
    have hsize := Text.size_pos hold
    refine ⟨by rw [hstart, hstop, Text.size_append]; omega,
      isBoundary_iff.2 ⟨before, old ++ after, List.append_assoc .., hstart.symm⟩,
      isBoundary_iff.2 ⟨before ++ old, after, rfl, hstop.symm⟩⟩

/-- The backslash and the first byte of the accented letter are stepped over together, which ends
inside that letter, and the template still ends at a boundary. -/
theorem slices_at_boundaries_escape :
    let text := "`\\é` (a)".toList
    let scope := ScopeMap.scan text .script
    let rule := letterRule "first" 'a' 'b'
    isBoundary (Text.utf8 text) 3 = false ∧
    scan text .script = some scope ∧
    scope.spans = [⟨.template, 0, 5⟩, ⟨.code, 5, 9⟩] ∧ isBoundary (Text.utf8 text) 5 = true ∧
    scope.frames = [⟨.parens, 6, 8⟩] ∧ isBoundary (Text.utf8 text) 8 = true ∧
    mend? rule text .bare = some "`\\é` (b)".toList ∧
    rule.matchSites text scope = [⟨7, 8, .admitted⟩] ∧ isBoundary (Text.utf8 text) 7 = true := by
  intro text scope rule
  obtain ⟨-, hscan, hspans, hframes, happly, hsites, -⟩ := slices_at_boundaries text .script
  have hspans' : scope.spans = [⟨.template, 0, 5⟩, ⟨.code, 5, 9⟩] := by decide +kernel
  have hframes' : scope.frames = [⟨.parens, 6, 8⟩] := by decide +kernel
  have hsites' : rule.matchSites text scope = [⟨7, 8, .admitted⟩] := by decide +kernel
  have htext : (rule.apply text .bare).text = "`\\é` (b)".toList := by decide +kernel
  refine ⟨by decide +kernel, hscan, hspans', ?_, hframes', ?_,
    (happly rule "").trans (congrArg some htext), hsites', ?_⟩
  · exact (hspans ⟨.template, 0, 5⟩ (by rw [hspans']; decide)).2.2
  · exact (hframes ⟨.parens, 6, 8⟩ (by rw [hframes']; decide)).2.2
  · exact (hsites rule scope ⟨7, 8, .admitted⟩ (by rw [hsites']; decide)).2.1

end SourceMend.Bytes
