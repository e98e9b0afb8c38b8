import SourceMend.Proofs.Pattern.Layered
import SourceMend.Proofs.Rule.Rewriting

/-!
Evaluating rules on given texts. For a program in layers the matches are had without memory, which
is quick enough to try a rule on an example.
-/
namespace SourceMend

namespace Pattern.Program

/-- The places of a text with their preferred matches, had without memory. -/
def scout (p : Program) (k : Cursor) : List Place :=
  k.places.map fun l =>
    ⟨l, (p.ways l.prev l.pos l.rest p.entry).map fun t => ⟨l, t.stop, t.starts, t.stops⟩⟩

theorem Layered.survey_eq_scout {p : Program} {rank : Nat → Nat} (h : p.Layered rank) (k : Cursor) :
    p.survey k = p.scout k := by
  rw [survey_eq, scout]
  exact List.map_congr_left fun l _ => by rw [find?_layered h]

/-- The number of instructions on the longest way at one place, as far as the fuel goes. -/
def depth (code : Code) : Nat → Nat → Nat
  | 0, _ => 0
  | fuel + 1, a => ((code.getD a .accept).onward.map (depth code fuel)).foldr max 0 + 1

/-- Whether the depths of a program put it in layers. -/
def isLayered (p : Program) : Bool :=
  ((List.range p.code.size).all fun a =>
    depth p.code p.code.size a < p.code.size &&
      (p.code.getD a .accept).onward.all fun b =>
        b < p.code.size && depth p.code p.code.size b < depth p.code p.code.size a) &&
    p.arrivals.all (·.address < p.code.size)

theorem layered_of_isLayered {p : Program} (h : p.isLayered = true) :
    p.Layered (depth p.code p.code.size) := by
  obtain ⟨hcode, harr⟩ := Bool.and_eq_true_iff.1 h
  have hcode (a : Nat) (ha : a < p.code.size) :=
    Bool.and_eq_true_iff.1 (List.all_eq_true.1 hcode a (List.mem_range.2 ha))
  refine ⟨fun a ha b hb => ?_, fun a ha => of_decide_eq_true (hcode a ha).1, fun t ht => ?_⟩
  · simpa using List.all_eq_true.1 (hcode a ha).2 b hb
  · exact of_decide_eq_true (List.all_eq_true.1 harr t ht)

end Pattern.Program

/-- The text that a rule makes of a given one, had without memory. -/
theorem Rule.apply_text_eq {r : Rule} {own : String} (hown : r.replacement = some own)
    (h : r.pattern.node.program.isLayered = true) (text : Text) (ctx : Context) :
    (r.apply text ctx).text = (r.mendFrom own ctx.path (ScopeMap.scan text ctx.dialect)
      (r.pattern.node.program.scout (.start text))).1 := by
  have hplaces : r.places text = r.pattern.node.program.scout (.start text) :=
    (Pattern.Program.layered_of_isLayered h).survey_eq_scout _
  simp only [apply_eq_applyIn, applyIn, hown, hplaces]

end SourceMend
