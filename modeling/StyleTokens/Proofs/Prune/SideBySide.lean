import StyleTokens.Proofs.Prune.Declaration
import StyleTokens.Proofs.Stylesheet.Alike
import StyleTokens.Proofs.Stylesheet.Extent

/-!
# The scanner on the text before and after

Two scanners read a stylesheet and what is left of it, side by side. A character that is left
alone takes both of them on. What is deleted is read by the first one only: if it is a statement
with blanks around it, the two scanners are alike again behind it.

## Main definitions

* `Prune.Kept`: the statements that are no declarations of the token, line numbers aside
* `Prune.Beside`: the scanners on the two texts
* `Prune.Follows`: a text along which the deletion follows the scanner

## Main results

* `Prune.Follows.scan`: if it does, what is left is read as the statements that are kept
-/

namespace StyleTokens

namespace Statement

variable {token : Text}

@[simp]
theorem declares_unplaced (x : Statement) : x.unplaced.declares token = x.declares token := by
  cases x <;> rfl

theorem filter_map_unplaced {p : Statement → Bool} (hp : ∀ x : Statement, p x.unplaced = p x)
    (xs : List Statement) : (xs.map unplaced).filter p = (xs.filter p).map unplaced := by
  rw [List.filter_map]
  exact congrArg (List.map unplaced) (List.filter_congr fun x _ => hp x)

end Statement

namespace Prune

variable {token source t : Text} {before : Option Char} {s s' s₁ : Scanner}
  {f f' g g' new : List Statement}

/-! ## Statements that are kept -/

/-- The second list holds what the first one does, without the declarations of the token and
line numbers aside. -/
def Kept (token : Text) (f f' : List Statement) : Prop :=
  f'.map Statement.unplaced = (f.filter fun x => !x.declares token).map Statement.unplaced

instance : Decidable (Kept token f f') := inferInstanceAs (Decidable (_ = _))

/-- What is found on both sides is kept if it holds no declaration of the token. -/
theorem Kept.append (kept : Kept token f f')
    (hg : g.map Statement.unplaced = f.map Statement.unplaced ++ new)
    (hg' : g'.map Statement.unplaced = f'.map Statement.unplaced ++ new)
    (same : g.filter (·.declares token) = f.filter (·.declares token)) : Kept token g g' := by
  have declared : ∀ x : Statement, x.unplaced.declares token = x.declares token :=
    Statement.declares_unplaced
  have other : ∀ x : Statement, (!x.unplaced.declares token) = !x.declares token := by simp
  -- Nothing new declares the token, so nothing new is lost.
  have none_new : new.filter (·.declares token) = [] := by
    have both := congrArg (List.map Statement.unplaced) same
    rw [← Statement.filter_map_unplaced declared, ← Statement.filter_map_unplaced declared, hg,
      List.filter_append] at both
    exact List.append_right_eq_self.mp both
  have all_new : new.filter (fun x => !x.declares token) = new := by
    rw [List.filter_eq_self]
    intro x hx
    simpa using List.filter_eq_nil_iff.mp none_new x hx
  rw [Kept, ← Statement.filter_map_unplaced other, hg, List.filter_append, all_new,
    Statement.filter_map_unplaced other, ← kept, hg']

/-! ## Side by side -/

/-- The way of the scanner along what is deleted: it is between two statements before and behind,
and finds nothing but declarations of the token. -/
structure Passes (token : Text) (s s' : Scanner) : Prop where
  left : s.Fresh
  right : s'.Fresh
  openBlocks : s'.openBlocks = s.openBlocks
  found : s'.found.filter (!·.declares token) = s.found.filter (!·.declares token)

/-- Along the text, the scanner finds no declaration of the token but in what is deleted, and
there it finds nothing else. -/
inductive Follows (token : Text) : Option Char → Scanner → Text → Prop
  | nil {before : Option Char} {s : Scanner} : Follows token before s []
  /-- A character is left alone. -/
  | keep {before : Option Char} {s s' : Scanner} {c : Char} {t : Text} :
    declarationRule token before (c :: t) = none → s.step c = .ok s' →
    s'.found.filter (·.declares token) = s.found.filter (·.declares token) →
    Follows token (some c) s' t → Follows token before s (c :: t)
  /-- A line is deleted. -/
  | cut {before : Option Char} {s s' : Scanner} {d t : Text} :
    declarationRule token before (d ++ t) = some ⟨d, ()⟩ → d ≠ [] → s.run d = .ok s' →
    Passes token s s' → Follows token d.getLast? s' t → Follows token before s (d ++ t)

/-- The scanners on the two texts: they go on alike, and what is found is kept. -/
structure Beside (token : Text) (s s' : Scanner) : Prop where
  alike : s.Alike s.found s'.found s'
  kept : Kept token s.found s'.found

theorem beside_initial : Beside token {} {} where
  alike := ⟨rfl, ⟨[], [], [], rfl, rfl, nofun, nofun⟩, rfl, rfl, rfl, rfl, [], rfl, rfl⟩
  kept := rfl

/-- Behind a character that both scanners read, they are side by side again. -/
theorem Beside.step (h : Beside token s s') {c : Char} (step : s.step c = .ok s₁)
    (same : s₁.found.filter (·.declares token) = s.found.filter (·.declares token)) :
    ∃ s₁', s'.step c = .ok s₁' ∧ Beside token s₁ s₁' := by
  have both := h.alike.step c
  rw [step] at both
  cases step' : s'.step c with
  | error e => simp [step', Scanner.AlikeResult] at both
  | ok s₁' =>
    rw [step'] at both
    have alike : s₁.Alike s.found s'.found s₁' := both
    obtain ⟨new, found, found'⟩ := alike.found
    refine ⟨s₁', rfl, ⟨alike.mode, alike.buffer, alike.openBlocks, alike.interpolation,
      alike.parens, alike.urlParen, [], ?_, ?_⟩, h.kept.append found found' same⟩
    · rw [List.append_nil]
    · rw [List.append_nil]

/-- What only the first scanner reads brings it back to where the second one is. -/
theorem Beside.skip (h : Beside token s s') (passes : Passes token s s₁) :
    Beside token s₁ s' where
  alike := by
    obtain ⟨fresh, fresh₁, blocks, -⟩ := passes
    -- the second scanner has read blanks only, since the first one had
    have blank : ∀ c ∈ s'.buffer.text, isBlank c := h.alike.buffer.blank fresh.blank
    refine ⟨?_, StatementBuffer.alike_of_blank fresh₁.blank blank, ?_, ?_, ?_, ?_, [], ?_, ?_⟩
    · rw [fresh₁.mode, ← h.alike.mode, fresh.mode]
    · rw [blocks, h.alike.openBlocks]
    · rw [fresh₁.interpolation, ← h.alike.interpolation, fresh.interpolation]
    · rw [fresh₁.parens, ← h.alike.parens, fresh.parens]
    · rw [fresh₁.urlParen, ← h.alike.urlParen, fresh.urlParen]
    · rw [List.append_nil]
    · rw [List.append_nil]
  kept := by
    rw [Kept, passes.found]
    exact h.kept

/-- **Along a text that the deletion follows, the two scanners stay side by side.** -/
theorem Follows.run (h : Follows token before s t) (beside : Beside token s s')
    (read : s.run t = .ok s₁) :
    ∃ s₁', s'.run ((declarationRule token).replacedFrom (fun _ => []) before t) = .ok s₁' ∧
      Beside token s₁ s₁' := by
  induction h generalizing s' with
  | nil =>
    cases read
    exact ⟨s', rfl, beside⟩
  | keep left step same _ ih =>
    rw [Scanner.run_cons step] at read
    obtain ⟨s₂', step', beside⟩ := beside.step step same
    obtain ⟨s₁', rest, beside⟩ := ih beside read
    rw [Rule.replacedFrom_plain left, Scanner.run_cons step']
    exact ⟨s₁', rest, beside⟩
  | cut taken ne line passes _ ih =>
    -- the second scanner stays where it is
    rw [Scanner.run_append line] at read
    obtain ⟨s₁', rest, beside⟩ := ih (beside.skip passes) read
    rw [Rule.replacedFrom_hit taken ne]
    exact ⟨s₁', rest, beside⟩

/-- **What is left is read as the statements that are kept**, if the deletion follows the scanner
and the end of the text finds no declaration of the token. -/
theorem Follows.scan {statements : List Statement} (h : Follows token none {} source)
    (read : Scanner.run {} source = .ok s) (finish : s.finish = .ok statements)
    (same : statements.filter (·.declares token) = s.found.filter (·.declares token)) :
    ∃ left, scan (without token source) = .ok left ∧ Kept token statements left := by
  obtain ⟨s', read', beside⟩ := h.run beside_initial read
  obtain ⟨left, finish', new, found, found'⟩ := beside.alike.finish finish
  refine ⟨left, ?_, beside.kept.append found found' same⟩
  rw [StyleTokens.scan, without, Rule.replaced_eq, read']
  exact finish'

end Prune

end StyleTokens
