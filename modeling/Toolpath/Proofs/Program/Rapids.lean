import Toolpath.Proofs.Scalar.Real
import Toolpath.Proofs.Program.Heights

/-!
Rapids that go down, in exact arithmetic. A rapid of a hole, a pass or a travel goes up, or it ends
at the surface or above, except for the one that takes the drill back into a hole between two pecks:
it ends half a millimetre above the depth of the peck before it.
-/

set_option autoImplicit false

namespace Toolpath

open Writer (Adds)

def Justified {β : Type} (P : List β → β → Prop) (entries : List β) : Prop :=
  ∀ front entry back, entries = front ++ entry :: back → P front entry

theorem Justified.append {β : Type} {P : List β → β → Prop} {first later : List β}
    (h : Justified P first) (k : Justified (fun front entry => P (first ++ front) entry) later) :
    Justified P (first ++ later) := by
  intro front entry back hsplit
  rcases List.append_eq_append_iff.mp hsplit with ⟨as, rfl, hlater⟩ | ⟨bs, hfirst, hback⟩
  · exact k as entry back hlater
  · cases bs with
    | nil =>
      rw [List.append_nil] at hfirst
      subst hfirst
      simpa using k [] entry back hback.symm
    | cons b bs =>
      obtain ⟨rfl, -⟩ := List.cons_eq_cons.mp hback
      exact h front entry bs hfirst

theorem Justified.singleton {β : Type} {P : List β → β → Prop} {entry : β} (h : P [] entry) :
    Justified P [entry] := by
  intro front other back hsplit
  obtain ⟨rfl, hsame⟩ | ⟨_, hnil⟩ := List.singleton_eq_append_iff.mp hsplit
  · obtain ⟨rfl, -⟩ := List.cons_eq_cons.mp hsame
    exact h
  · cases hnil

def Written.Lowers (line : Written ℝ) : Prop :=
  line.record.kind = .lift ∧ line.after.z < line.before.z

/-- Only rapids were written since a peck, and the line ends over it, by the clearance. -/
def Reenters (front : List (Written ℝ)) (line : Written ℝ) : Prop :=
  ∃ earlier peck out, front = earlier ++ peck :: out ∧ peck.record.kind = .drill ∧
    (∀ o ∈ out, o.record.kind = .lift) ∧ line.after.xy = peck.after.xy ∧
    line.after.z = peck.after.z + 0.5

/-- A line that is no rapid down, or one that ends at the surface or above. -/
def Above (top : ℝ) (line : Written ℝ) : Prop := line.Lowers → top ≤ line.after.z

/-- Every rapid down ends at the surface or above, or goes back into a hole. -/
def Safe (top : ℝ) (lines : List (Written ℝ)) : Prop :=
  Justified (fun front line => Above top line ∨ Reenters front line) lines

private theorem Reenters.append {front : List (Written ℝ)} {line : Written ℝ}
    (h : Reenters front line) (lines : List (Written ℝ)) : Reenters (lines ++ front) line := by
  obtain ⟨earlier, peck, out, rfl, hpeck⟩ := h
  exact ⟨lines ++ earlier, peck, out, (List.append_assoc _ _ _).symm, hpeck⟩

namespace Safe

variable {top : ℝ} {lines later : List (Written ℝ)}

private theorem of_above (h : ∀ line ∈ lines, Above top line) : Safe top lines := by
  rintro front line back rfl
  exact Or.inl (h line (by simp))

private theorem append (h : Safe top lines) (k : Safe top later) : Safe top (lines ++ later) :=
  Justified.append h fun front line back hsplit =>
    (k front line back hsplit).imp_right fun hback => hback.append lines

private theorem concat (h : Safe top lines) {line : Written ℝ} (back : Reenters lines line) :
    Safe top (lines ++ [line]) := by
  refine Justified.append h (.singleton (Or.inr ?_))
  rwa [List.append_nil]

end Safe

namespace Writer

def AddsSafe (top : ℝ) (w w' : Writer ℝ) : Prop :=
  ∃ lines, w'.written.reverse = w.written.reverse ++ lines ∧ Safe top lines

variable {top : ℝ} {w w' w'' : Writer ℝ}

theorem Adds.safe (h : Adds (Above top) w w') : AddsSafe top w w' :=
  ⟨_, h.written_reverse, .of_above fun _ => h.of_mem_since⟩

namespace AddsSafe

private theorem trans (h : AddsSafe top w w') (k : AddsSafe top w' w'') : AddsSafe top w w'' := by
  obtain ⟨lines, hlines, hsafe⟩ := h
  obtain ⟨later, hlater, hsafe'⟩ := k
  exact ⟨lines ++ later, by rw [hlater, hlines, List.append_assoc], hsafe.append hsafe'⟩

private theorem foldl {β : Type} {f : Writer ℝ → β → Writer ℝ} (h : ∀ w b, AddsSafe top w (f w b))
    (bs : List β) (w : Writer ℝ) : AddsSafe top w (bs.foldl f w) := by
  induction bs generalizing w with
  | nil => exact (Adds.refl (Above top) w).safe
  | cons b bs ih => exact (h w b).trans (ih (f w b))

private theorem push {lines : List (Written ℝ)}
    (hlines : w'.written.reverse = w.written.reverse ++ lines)
    (hsafe : Safe top lines) {r : Record ℝ} {head : Head ℝ}
    (back : Reenters lines ⟨r, w'.head, head⟩) : AddsSafe top w (w'.push r head) := by
  refine ⟨lines ++ [⟨r, w'.head, head⟩], ?_, hsafe.concat back⟩
  rw [Writer.push, List.reverse_cons, hlines, List.append_assoc]

theorem safe_since (h : AddsSafe top w w') : Safe top (w.since w') := by
  obtain ⟨lines, hlines, hsafe⟩ := h
  have hwritten : w'.written = lines.reverse ++ w.written := by
    rw [← List.reverse_inj, hlines]
    simp
  have hsince : w.since w' = lines := by simp [since, hwritten]
  rwa [hsince]

end AddsSafe

private theorem above_push (r : Record ℝ) (head : Head ℝ) (h : r.kind ≠ .lift) :
    Adds (Above top) w (w.push r head) :=
  .push _ _ _ fun hlowers => absurd hlowers.1 h

theorem above_comment (text : String) : Adds (Above top) w (w.comment text) :=
  above_push _ _ (by simp [Record.comment])

theorem above_other (text : String) : Adds (Above top) w (w.other text) :=
  above_push _ _ (by simp [Record.other])

theorem Notes.above (h : Notes w w') : Adds (Above top) w w' :=
  h.notes.imp fun line hnote hlowers => by
    rcases hnote with hkind | hkind <;> rw [hlowers.1] at hkind <;> cases hkind

theorem above_travelTo (dest : Point ℝ) (rate : Option ℝ) :
    Adds (Above top) w (w.travelTo dest rate) := by
  unfold travelTo
  dsimp only
  split
  · exact .refl _ _
  · exact above_push _ _ (by simp)

theorem above_lift {z : ℝ} (text : String) (h : w.head.z ≤ z ∨ top ≤ z) :
    Adds (Above top) w (w.lift z text) := by
  unfold lift
  dsimp only
  split
  · exact .refl _ _
  · refine .push _ _ _ fun hlowers => ?_
    rcases h with hup | habove
    · exact absurd hlowers.2 (not_lt.mpr hup)
    · exact habove

theorem above_lifted (sweep : ℝ) : Adds (Above top) w (w.lifted sweep) := by
  unfold lifted
  split
  · next hbelow => exact above_lift _ (Or.inl hbelow.le)
  · exact .refl _ _

private theorem above_moveToHeight (setup : Setup ℝ) (z feed : ℝ) :
    Adds (Above top) w (w.moveToHeight setup z feed) := by
  unfold moveToHeight
  split
  · exact above_push _ _ (by simp)
  · split
    · next hbelow =>
      have htolerance : (0 : ℝ) ≤ moveTolerance := by norm_num [moveTolerance]
      exact above_lift _ (Or.inl (by linarith))
    · exact .refl _ _

private theorem above_surface (setup : Setup ℝ) :
    Adds (Above top) w (w.rapidToCorrected setup top) :=
  above_lift _ (Or.inr (le_refl top))

theorem above_moves (setup : Setup ℝ) (top safe : ℝ) : Moves (Above top) setup top safe where
  comment _ text _ := above_comment text
  travel _ dest := (above_lifted safe).trans (above_travelTo dest none)
  surface _ := above_surface setup
  height _ := above_moveToHeight setup
  line _ _ _ _ := above_push _ _ (by simp)
  arc _ _ _ _ _ _ _ := above_push _ _ (by simp)

end Writer

open Writer (AddsSafe)

namespace HoleParams

variable {w : Writer ℝ} {setup : Setup ℝ}

private theorem safe_back {peck : Written ℝ} {w' : Writer ℝ} (p : HoleParams ℝ)
    (hpeck : w'.written = peck :: w.written) (hkind : peck.record.kind = .drill)
    (hhead : w'.head = peck.after) {z : ℝ} (hz : z = peck.after.z + 0.5) :
    AddsSafe p.top w ((w'.rapidToCorrected setup p.top).rapidToCorrected setup z) := by
  have hout : Adds (fun line => line.record.kind = .lift ∧ Above p.top line) w'
      (w'.rapidToCorrected setup p.top) := by
    unfold Writer.rapidToCorrected Writer.lift
    dsimp only
    split
    · exact .refl _ _
    · exact .push _ _ _ ⟨rfl, fun _ => le_refl p.top⟩
  have hxy : (w'.rapidToCorrected setup p.top).head.xy = peck.after.xy := by
    rw [← hhead]
    unfold Writer.rapidToCorrected Writer.lift
    dsimp only
    split <;> rfl
  obtain ⟨out, hwritten, hrapids⟩ := hout
  have hlines : (w'.rapidToCorrected setup p.top).written.reverse =
      w.written.reverse ++ (peck :: out.reverse) := by
    rw [hwritten, hpeck]
    simp
  have hsafe : Safe p.top (peck :: out.reverse) := by
    refine .of_above fun line hline hlowers => ?_
    rcases List.mem_cons.mp hline with rfl | hline
    · exact absurd (hkind.symm.trans hlowers.1) (by simp)
    · exact (hrapids line (List.mem_reverse.mp hline)).2 hlowers
  generalize w'.rapidToCorrected setup p.top = surface at hlines hxy
  unfold Writer.rapidToCorrected Writer.lift
  dsimp only
  split
  · exact ⟨_, hlines, hsafe⟩
  · exact .push hlines hsafe ⟨[], peck, out.reverse, rfl, hkind,
      fun o ho => (hrapids o (List.mem_reverse.mp ho)).1, hxy, hz⟩

private theorem safe_peckTo (p : HoleParams ℝ) (w : Writer ℝ) (z : ℝ) :
    AddsSafe p.top w (p.peckTo setup w z) := by
  unfold peckTo
  dsimp only
  split
  · exact p.safe_back rfl rfl rfl rfl
  · exact ((Writer.above_push _ _ (by simp)).trans (Writer.above_surface setup)).safe

theorem safe_drill (p : HoleParams ℝ) (hsafe : p.top ≤ p.safe) (center : Point ℝ) :
    AddsSafe p.top w (p.drill w setup center) := by
  have hcycle (w : Writer ℝ) : AddsSafe p.top w
      (if p.peck ≤ 0.0 then
          (w.comment "Simple drilling cycle").drillTo setup p.bottom p.plungeRate
        else
          (Layers.descent p.top p.peck p.bottom).foldl (p.peckTo setup)
            (w.comment "Peck drilling cycle")) := by
    split
    · exact ((Writer.above_comment _).trans (Writer.above_push _ _ (by simp))).safe
    · exact (Writer.above_comment _).safe.trans (.foldl p.safe_peckTo _ _)
  have hend (w : Writer ℝ) : AddsSafe p.top w (w.rapidTo p.safe) :=
    (Writer.above_lift _ (Or.inr hsafe)).safe
  have happroach := p.adds_approach (Writer.above_moves setup p.top p.safe) w center
  exact (happroach.safe.trans (hcycle _)).trans (hend _)

theorem safe_bore (p : HoleParams ℝ) (hsafe : p.top ≤ p.safe) (center : Point ℝ)
    (holeRadius bitDiameter : ℝ) :
    AddsSafe p.top w (p.bore w setup center holeRadius bitDiameter) := by
  have hmoves := Writer.above_moves setup p.top p.safe
  have haway (w : Writer ℝ) : Adds (Above p.top) w (w.rapidTo p.safe) :=
    Writer.above_lift _ (Or.inr hsafe)
  rcases p.bore_cases hmoves haway w center holeRadius bitDiameter with ⟨text, -, hdrill⟩ | hspiral
  · rw [hdrill]
    exact (Writer.above_comment text).safe.trans (p.safe_drill hsafe center)
  · exact hspiral.safe

end HoleParams

end Toolpath
