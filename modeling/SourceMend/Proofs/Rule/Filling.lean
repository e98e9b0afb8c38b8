import SourceMend.Proofs.Pattern.Language

/-!
What a rule writes in the place of a match. A template is a plan of characters and groups, and a
pattern that is a sequence of parts gives each group the text of its part. So the old and the new
text of an edit are both told by the texts of the parts.
-/
namespace SourceMend

open Pattern (Match Node Cursor)

namespace Template

inductive Piece where
  | char (c : Char)
  /-- The text of a group, if the pattern has it. -/
  | group (i : Option Nat)
  deriving DecidableEq

def Piece.fill (m : Match) : Piece → Text
  | .char c => [c]
  | .group i => ((i.bind m.group?).map (·.2)).getD []

/-- A piece filled in from the texts of the groups. -/
def Piece.written (groups : List (Nat × Text)) : Piece → Text
  | .char c => [c]
  | .group i => (i.bind fun j => groups.lookup j).getD []

/-- Whether a piece is a character or one of the groups. -/
def Piece.isAmong (groups : List Nat) : Piece → Bool
  | .char _ => true
  | .group i => i.any fun j => j ≠ 0 && groups.contains j

theorem Piece.fill_eq_written {m : Match} {groups : List (Nat × Text)}
    (h : ∀ i s, (i, s) ∈ groups → i ≠ 0 → (m.group? i).map (·.2) = some s) {p : Piece}
    (hp : p.isAmong (groups.map (·.1)) = true) : p.fill m = p.written groups := by
  cases p with
  | char c => rfl
  | group i =>
    obtain ⟨j, rfl, hj⟩ := (Option.any_eq_true _ _).1 hp
    obtain ⟨hne, hmem⟩ : j ≠ 0 ∧ j ∈ groups.map (·.1) := by simpa using hj
    have hsome : (groups.lookup j).isSome = true := by
      rw [List.lookup_isSome_iff]
      obtain ⟨e, he, rfl⟩ := List.mem_map.1 hmem
      exact ⟨e, he, by simp⟩
    obtain ⟨s, hs⟩ := Option.isSome_iff_exists.1 hsome
    have hin : (j, s) ∈ groups := by
      obtain ⟨l₁, l₂, rfl, -⟩ := List.lookup_eq_some_iff.1 hs
      simp
    simp [fill, written, hs, h j s hin hne]

/-- A template as characters and groups of a pattern. -/
def plan (p : Pattern) (t : Text) : List Piece :=
  match t with
  | [] => []
  | '$' :: '$' :: rest => .char '$' :: plan p rest
  | '$' :: '{' :: rest =>
    let name := rest.takeWhile (· ≠ '}')
    if name.length < rest.length then
      .group ((CaptureRef.parse name).resolve? p) :: plan p (rest.drop (name.length + 1))
    else .char '$' :: plan p ('{' :: rest)
  | c :: rest =>
    if c = '$' ∧ rest.head?.any isNameChar then
      let name := rest.takeWhile isNameChar
      .group ((CaptureRef.parse name).resolve? p) :: plan p (rest.drop name.length)
    else .char c :: plan p rest
termination_by t.length
decreasing_by all_goals (simp only [List.length_cons, List.length_drop]; omega)

theorem expand_eq_plan (p : Pattern) (m : Match) (t : Text) :
    expand (fun ref => (ref.text? p m).getD []) t = (plan p t).flatMap (Piece.fill m) := by
  have hgroup (ref : CaptureRef) :
      (ref.text? p m).getD [] = Piece.fill m (.group (ref.resolve? p)) := by
    cases h : ref.resolve? p <;> simp [CaptureRef.text?, Piece.fill, h]
  fun_induction plan p t with
  | case1 => simp [expand]
  | case2 rest ih => simp [expand, ih, Piece.fill]
  | case3 rest name hlen ih =>
    rw [expand, if_pos hlen, ih, hgroup, List.flatMap_cons]
  | case4 rest name hlen ih =>
    rw [expand, if_neg hlen, ih, List.flatMap_cons]
    rfl
  | case5 c rest h1 h2 hc name ih =>
    rw [expand, if_pos hc]
    · change ((CaptureRef.parse name).text? p m).getD [] ++ expand _ (rest.drop name.length) = _
      rw [ih, hgroup, List.flatMap_cons]
    · exact h1
    · exact h2
  | case6 c rest h1 h2 hc ih =>
    rw [expand, if_neg hc, ih, List.flatMap_cons]
    · rfl
    · exact h1
    · exact h2

end Template

namespace Pattern

/-- A match of a sequence reads a text for each part, and the texts of the groups are those of
their parts. -/
theorem find?_ofParts {parts : List Node} (hflat : ∀ a ∈ parts, a.body.groups = [])
    (hnodup : (parts.filterMap Node.index?).Nodup) {k : Cursor} {m : Match}
    (h : (Node.ofParts parts).program.find? k = some m) :
    m.start = k ∧ ∃ ss, Reading parts k ss m.stop ∧
      ∀ i s, (i, s) ∈ captured parts ss → i ≠ 0 → (m.group? i).map (·.2) = some s := by
  obtain ⟨hs, hway⟩ := find?_way h
  obtain ⟨ss, hread, hnotes⟩ := way_ofParts hflat hnodup hway (by simp)
  refine ⟨hs, ss, hread, fun i s hi hne => ?_⟩
  obtain ⟨a, b, ha, hb, hr⟩ := hnotes.own i s hi
  have ha : m.starts.lookup i = some a := ha
  have hb : m.stops.lookup i = some b := hb
  simp [Match.group?, hne, ha, hb, hr.upTo]

end Pattern

/-- An admitted match is code all through. -/
theorem Rule.isCode_of_admitted {r : Rule} {scope : ScopeMap} {m : Match}
    (h : r.placement scope m = .admitted) : scope.isCode m.start.pos m.stop.pos = true := by
  unfold placement at h
  split at h
  · contradiction
  · next hcode => simpa using hcode

/-- An edit of a rule whose pattern is a sequence of parts. -/
theorem Rule.Replaces.parts {r : Rule} {own path : String} {scope : ScopeMap}
    {before old new after : Text} {parts : List Node} {pieces : List Template.Piece}
    (h : r.Replaces own path scope before old new after) (hnode : r.pattern.node = .ofParts parts)
    (hflat : ∀ a ∈ parts, a.body.groups = []) (hnodup : (parts.filterMap Node.index?).Nodup)
    (hover : r.overrides = []) (hplan : Template.plan r.pattern own.toList = pieces)
    (hamong : pieces.all (·.isAmong (parts.filterMap Node.index?)) = true) :
    scope.isCode (Text.size before) (Text.size (before ++ old)) = true ∧ ∃ ss,
      Pattern.Reading parts (.between before (old ++ after)) ss (.between (before ++ old) after) ∧
      old = ss.flatten ∧
      new = pieces.flatMap (Template.Piece.written (Pattern.captured parts ss)) := by
  obtain ⟨m, hfind, hstop, -, hadm, hnew⟩ := h
  rw [hnode] at hfind
  obtain ⟨hstart, ss, hread, hcap⟩ := Pattern.find?_ofParts hflat hnodup hfind
  rw [hstop] at hread
  refine ⟨?_, ss, hread, ?_, ?_⟩
  · have hcode := isCode_of_admitted hadm
    rwa [hstart, hstop] at hcode
  · exact (Cursor.reads_between before old after).unique hread.reads
  · rw [hnew, replacementFor, templateFor, hover]
    refine (Template.expand_eq_plan r.pattern m own.toList).trans ?_
    have hfill : ∀ p ∈ pieces, p.fill m = p.written (Pattern.captured parts ss) := by
      intro p hp
      refine Template.Piece.fill_eq_written hcap ?_
      rw [hread.map_captured]
      exact List.all_eq_true.1 hamong p hp
    rw [hplan, List.flatMap_def, List.flatMap_def, List.map_congr_left hfill]

end SourceMend
