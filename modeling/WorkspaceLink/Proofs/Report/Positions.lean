import WorkspaceLink.Position
import WorkspaceLink.Proofs.Text.Cuts
import WorkspaceLink.Proofs.Text.Decimal
import WorkspaceLink.Proofs.Text.Lines

/-!
Positions as the references report lists them. The numbers are sums in machine words, in which the
last coordinate comes around to zero, and still tell the positions.
-/

namespace WorkspaceLink.ReferencesReport

open Text

variable {p p' : Position} {piece piece' : List Position}

/-- A position as it is printed, counted from one in machine words. -/
def positionText (p : Position) : Text :=
  "L" ++ ofNat ((p.line + 1) % coordBound) ++ ":C" ++ ofNat ((p.character + 1) % coordBound)

/-- A line that lists references. -/
def referenceLine (piece : List Position) : Text :=
  "    References: " ++ joined ", " (piece.map positionText)

theorem positionText_eq (p : Position) : positionText p =
    'L' :: (ofNat (coordSucc p.line) ++ ':' :: 'C' :: ofNat (coordSucc p.character)) := by
  simp [positionText, coordSucc]

theorem positionText_inj (hp : p.Fits) (hp' : p'.Fits) :
    positionText p = positionText p' ↔ p = p' := by
  have hcolon (n : Nat) : ':' ∉ ofNat n := not_mem_ofNat (by decide) n
  rw [positionText_eq, positionText_eq, List.cons_inj_right, append_cons_inj (hcolon _) (hcolon _),
    List.cons_inj_right, ofNat_inj, ofNat_inj, coordSucc_inj hp.1 hp'.1, coordSucc_inj hp.2 hp'.2]
  constructor
  · rintro ⟨hline, hcharacter⟩
    exact congrArg₂ Position.mk hline hcharacter
  · rintro rfl
    exact ⟨rfl, rfl⟩

theorem not_mem_positionText (p : Position) : ',' ∉ positionText p := by
  have hcomma (n : Nat) : ',' ∉ ofNat n := not_mem_ofNat (by decide) n
  simp [positionText_eq, hcomma]

theorem map_positionText_inj (h : ∀ p ∈ piece, p.Fits) (h' : ∀ p ∈ piece', p.Fits) :
    piece.map positionText = piece'.map positionText ↔ piece = piece' := by
  refine ⟨fun heq => ?_, congrArg _⟩
  induction piece generalizing piece' with
  | nil => exact (List.map_eq_nil_iff.mp heq.symm).symm
  | cons p ps ih =>
    cases piece' with
    | nil => cases heq
    | cons p' ps' =>
      rw [List.forall_mem_cons] at h h'
      obtain ⟨hhead, htail⟩ := List.cons.inj heq
      rw [(positionText_inj h.1 h'.1).mp hhead, ih h.2 h'.2 htail]

/-- A line that lists references tells them all, in their order. -/
theorem referenceLine_inj (h : ∀ p ∈ piece, p.Fits) (h' : ∀ p ∈ piece', p.Fits) :
    referenceLine piece = referenceLine piece' ↔ piece = piece' := by
  have hsep : ", ".toList = ',' :: [' '] := by simp
  have hnone (sep : Text) : joined sep [] = [] := List.intercalate_nil
  have hsome (p : Position) (ps : List Position) (sep : Text) :
      joined sep ((p :: ps).map positionText) ≠ [] := by
    rw [List.map_cons, positionText_eq, joined_cons_head]
    exact List.cons_ne_nil _ _
  have hcomma (ps : List Position) : ∀ l ∈ ps.map positionText, ',' ∉ l :=
    List.forall_mem_map.mpr fun p _ => not_mem_positionText p
  -- A rewrite here would try to close the goal by evaluating the texts.
  unfold referenceLine
  refine (List.append_right_inj _).trans ?_
  rw [hsep]
  cases piece with
  | nil =>
    cases piece' with
    | nil => simp
    | cons p' ps' =>
      rw [List.map_nil, hnone]
      exact iff_of_false (hsome p' ps' _).symm (List.cons_ne_nil _ _).symm
  | cons p ps =>
    cases piece' with
    | nil =>
      rw [List.map_nil, hnone]
      exact iff_of_false (hsome p ps _) (List.cons_ne_nil _ _)
    | cons p' ps' =>
      have hne (p : Position) (ps : List Position) : (p :: ps).map positionText ≠ [] := by simp
      rw [joined_inj (hne p ps) (hne p' ps') (hcomma _) (hcomma _)]
      exact map_positionText_inj h h'

example : referenceLine [⟨lastCoord, 0⟩, ⟨9, 1⟩] = "    References: L0:C1, L10:C2" := by
  decide

end WorkspaceLink.ReferencesReport
