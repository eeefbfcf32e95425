import Toolpath.Proofs.Program.Meaning
import Toolpath.Proofs.Program.Words

/-!
Where a program takes the tool. Before the first place in absolute coordinates it is anybody's guess
where the tool is, so a program that works only behind such a place does its work at the same places
wherever the tool was. A program of regular records, with absolute coordinates in front of all else,
fixes its position exactly if a travel comes before its first work, and no dead travel is the only
one.
-/

set_option autoImplicit false

namespace Toolpath

universe u

variable {α : Type}

/-- Coordinates are absolute behind the records, whatever they were before. -/
def Absolute (records : List (Record α)) : Prop := records.foldl Record.mode false = true

/-- Every record that cuts or measures is behind one that says a place in absolute coordinates. -/
def FixesPosition (records : List (Record α)) : Prop :=
  ∀ front r back, records = front ++ r :: back → r.works = true →
    ∃ lead move rest, front = lead ++ move :: rest ∧ Absolute (lead ++ [move]) ∧ move.SaysPlace

/-- What the words for an axis mean: a place, or a shift of the place where the tool is. -/
structure Axis (π : Type u) where
  place : List Char → π
  shift : π → List Char → π

/-- The place of a tool, and how its machine takes coordinates. -/
structure Tool (π : Type u) where
  absolute : Bool
  x : π
  y : π

namespace Axis

variable {π : Type u}

def move (axis : Axis π) (absolute : Bool) (here : π) : Option (List Char) → π
  | none => here
  | some word => if absolute then axis.place word else axis.shift here word

private theorem move_absolute (axis : Axis π) {word : Option (List Char)} (h : word.isSome = true)
    (here there : π) : axis.move true here word = axis.move true there word := by
  obtain ⟨said, rfl⟩ := Option.isSome_iff_exists.mp h
  rfl

end Axis

namespace Tool

variable {π : Type u} (axis : Axis π)

def step (t : Tool π) (r : Record α) : Tool π :=
  let absolute := r.mode t.absolute
  ⟨absolute, axis.move absolute t.x (r.word? 'X'), axis.move absolute t.y (r.word? 'Y')⟩

def run (t : Tool π) (records : List (Record α)) : Tool π := records.foldl (step axis) t

/-- The cuts and measurements of a program, each with the place of the tool before and after it. -/
def sites : Tool π → List (Record α) → List (Record α × (π × π) × (π × π))
  | _, [] => []
  | t, r :: rest =>
    let next := t.step axis r
    if r.works then (r, (t.x, t.y), (next.x, next.y)) :: sites next rest else sites next rest

private theorem run_append (t : Tool π) (xs ys : List (Record α)) :
    t.run axis (xs ++ ys) = (t.run axis xs).run axis ys :=
  List.foldl_append

private theorem absolute_run (t : Tool π) (records : List (Record α)) :
    (t.run axis records).absolute = records.foldl Record.mode t.absolute := by
  induction records generalizing t with
  | nil => rfl
  | cons r rest ih => exact ih (t.step axis r)

end Tool

private theorem Record.mode_mono {a b : Bool} (h : a = true → b = true) (r : Record α)
    (absolute : r.mode a = true) : r.mode b = true := by
  unfold Record.mode at absolute ⊢
  split
  · rfl
  · next hset =>
    rw [if_neg hset] at absolute
    split
    · next hunset => simp [hunset] at absolute
    · next hkept =>
      rw [if_neg hkept] at absolute
      exact h absolute

private theorem foldl_mode_mono {a b : Bool} (h : a = true → b = true) {records : List (Record α)}
    (absolute : records.foldl Record.mode a = true) : records.foldl Record.mode b = true := by
  induction records generalizing a b with
  | nil => exact h absolute
  | cons r rest ih => exact ih (r.mode_mono h) absolute

section Replays

variable {π : Type u} (axis : Axis π)

private theorem Tool.run_eq {lead : List (Record α)} {move : Record α}
    (h : Absolute (lead ++ [move]))
    (place : move.SaysPlace) (rest : List (Record α)) (t t' : Tool π) :
    t.run axis (lead ++ move :: rest) = t'.run axis (lead ++ move :: rest) := by
  have hmode (t : Tool π) : move.mode (t.run axis lead).absolute = true := by
    have habsolute : (lead ++ [move]).foldl Record.mode t.absolute = true :=
      foldl_mode_mono (by simp) h
    rwa [List.foldl_append, ← absolute_run axis] at habsolute
  have hmove : (t.run axis lead).step axis move = (t'.run axis lead).step axis move := by
    simp only [step, hmode t, hmode t', Tool.mk.injEq, true_and]
    exact ⟨axis.move_absolute place.1 _ _, axis.move_absolute place.2 _ _⟩
  have hsplit (t : Tool π) : t.run axis (lead ++ move :: rest) =
      ((t.run axis lead).step axis move).run axis rest := run_append axis t lead (move :: rest)
  rw [hsplit, hsplit, hmove]

private theorem FixesPosition.sites_eq {records : List (Record α)} (h : FixesPosition records)
    (t t' : Tool π) : t.sites axis records = t'.sites axis records := by
  -- The induction is on what is left of the program, so that the records before it are at hand.
  have hrest (front later : List (Record α)) (hsplit : records = front ++ later) :
      (t.run axis front).sites axis later = (t'.run axis front).sites axis later := by
    induction later generalizing front with
    | nil => rfl
    | cons r rest ih =>
      have hnext : ((t.run axis front).step axis r).sites axis rest =
          ((t'.run axis front).step axis r).sites axis rest := by
        have hstep (t : Tool π) : (t.run axis front).step axis r = t.run axis (front ++ [r]) :=
          (Tool.run_append axis t front [r]).symm
        rw [hstep, hstep]
        exact ih (front ++ [r]) (by simp [hsplit])
      unfold Tool.sites
      dsimp only
      rw [hnext]
      split
      · next hworks =>
        obtain ⟨lead, move, between, rfl, habsolute, hplace⟩ := h front r rest hsplit hworks
        rw [Tool.run_eq axis habsolute hplace between t t']
      · rfl
  exact hrest [] records rfl

end Replays

/-- A program cuts and measures at the same places, wherever the tool was before it and however its
machine took coordinates. -/
def SameSites (records : List (Record α)) : Prop :=
  ∀ (π : Type) (axis : Axis π) (t t' : Tool π), t.sites axis records = t'.sites axis records

theorem FixesPosition.sameSites {records : List (Record α)} (h : FixesPosition records) :
    SameSites records :=
  fun _ axis t t' => h.sites_eq axis t t'

namespace Tool

variable {π : Type u} (axis : Axis π)

private theorem step_silent {r : Record α} (h : r.Silent) (t : Tool π) :
    (t.step axis r).x = t.x ∧ (t.step axis r).y = t.y := by
  simp [step, h.x, h.y, Axis.move]

private theorem sites_silent {front : List (Record α)} (h : ∀ r ∈ front, r.Silent)
    (later : List (Record α)) (t : Tool π) :
    ∃ s : Tool π, s.x = t.x ∧ s.y = t.y ∧ t.sites axis (front ++ later) = s.sites axis later := by
  induction front generalizing t with
  | nil => exact ⟨t, rfl, rfl, rfl⟩
  | cons r front ih =>
    have hr := h r List.mem_cons_self
    obtain ⟨s, hx, hy, hsites⟩ := ih (fun q hq => h q (List.mem_cons_of_mem r hq)) (t.step axis r)
    obtain ⟨hstepX, hstepY⟩ := step_silent axis hr t
    refine ⟨s, hx.trans hstepX, hy.trans hstepY, ?_⟩
    rw [List.cons_append, sites, if_neg (by simp [hr.works])]
    exact hsites

end Tool

theorem not_fixesPosition_of_silent {front back : List (Record α)} {r : Record α}
    (h : ∀ q ∈ front, q.Silent) (works : r.works = true) :
    ¬ FixesPosition (front ++ r :: back) ∧ ¬ SameSites (front ++ r :: back) := by
  constructor
  · intro hfixes
    obtain ⟨lead, move, rest, rfl, -, hplace⟩ := hfixes front r back rfl works
    have hsilent := h move (by simp)
    simp [Record.SaysPlace, hsilent.x] at hplace
  · intro hsame
    let axis : Axis Bool := ⟨fun _ => true, fun here _ => here⟩
    obtain ⟨s, hs, -, hsites⟩ := Tool.sites_silent axis h (r :: back) ⟨true, true, true⟩
    obtain ⟨s', hs', -, hsites'⟩ := Tool.sites_silent axis h (r :: back) ⟨true, false, false⟩
    have heq := hsame Bool axis ⟨true, true, true⟩ ⟨true, false, false⟩
    rw [hsites, hsites', Tool.sites, Tool.sites, if_pos works, if_pos works] at heq
    simp [hs, hs'] at heq

theorem not_fixesPosition_of_take {records : List (Record α)} (n : Nat)
    (h : ∀ q ∈ records.take n, q.Silent) (works : records[n]?.any Record.works = true) :
    ¬ FixesPosition records ∧ ¬ SameSites records := by
  obtain ⟨r, hr, hworks⟩ := (Option.any_eq_true _ _).mp works
  obtain ⟨hn, rfl⟩ := List.getElem?_eq_some_iff.mp hr
  have hsplit : records = records.take n ++ records[n] :: records.drop (n + 1) := by
    rw [← List.drop_eq_getElem_cons hn, List.take_append_drop]
  rw [hsplit]
  exact not_fixesPosition_of_silent h hworks

theorem fixesPosition_of_lead {lead rest : List (Record α)} {move : Record α}
    (idle : ∀ r ∈ lead, r.works = false) (rests : move.works = false)
    (absolute : Absolute (lead ++ [move])) (place : move.SaysPlace) :
    FixesPosition (lead ++ move :: rest) := by
  intro front r back hsplit hworks
  have hsplit : (lead ++ [move]) ++ rest = front ++ r :: back := by simpa using hsplit
  rcases List.append_eq_append_iff.mp hsplit with ⟨between, rfl, -⟩ | ⟨tail, hlead, hback⟩
  · exact ⟨lead, move, between, by simp, absolute, place⟩
  · cases tail with
    | nil => exact ⟨lead, move, [], by simpa using hlead.symm, absolute, place⟩
    | cons q tail =>
      obtain ⟨rfl, -⟩ := List.cons_eq_cons.mp hback
      have hr : r ∈ lead ++ [move] := by simp [hlead]
      have hrests : r.works = false := by
        rcases List.mem_append.mp hr with hr | hr
        · exact idle r hr
        · exact List.mem_singleton.mp hr ▸ rests
      rw [hworks] at hrests
      cases hrests

/-- A travel comes before the first work, if there is any. -/
def TravelsFirst : List (Record α) → Prop
  | [] => True
  | r :: rest => r.kind = .travel ∨ (r.works = false ∧ TravelsFirst rest)

namespace TravelsFirst

variable {front xs ys : List (Record α)}

theorem of_travel {move : Record α} (idle : ∀ r ∈ front, r.works = false)
    (travel : move.kind = .travel) (back : List (Record α)) :
    TravelsFirst (front ++ move :: back) := by
  induction front with
  | nil => exact Or.inl travel
  | cons r front ih =>
    exact Or.inr ⟨idle r List.mem_cons_self, ih fun q hq => idle q (List.mem_cons_of_mem r hq)⟩

private theorem append_imp (h : TravelsFirst xs → TravelsFirst ys)
    (first : TravelsFirst (front ++ xs)) :
    TravelsFirst (front ++ ys) := by
  induction front with
  | nil => exact h first
  | cons r front ih => exact first.imp_right fun hidle => ⟨hidle.1, ih hidle.2⟩

private theorem cases_first (h : TravelsFirst xs) : (∀ r ∈ xs, r.works = false) ∨
    ∃ front move back, xs = front ++ move :: back ∧ move.kind = .travel ∧
      ∀ r ∈ front, r.works = false := by
  induction xs with
  | nil => exact Or.inl (by simp)
  | cons r xs ih =>
    rcases h with htravel | ⟨hidle, hrest⟩
    · exact Or.inr ⟨[], r, xs, rfl, htravel, by simp⟩
    · rcases ih hrest with hnone | ⟨front, move, back, rfl, htravel, hfront⟩
      · exact Or.inl (List.forall_mem_cons.mpr ⟨hidle, hnone⟩)
      · exact Or.inr ⟨r :: front, move, back, rfl, htravel,
          List.forall_mem_cons.mpr ⟨hidle, hfront⟩⟩

private theorem exists_first_work (h : ¬ TravelsFirst xs) :
    ∃ front r back, xs = front ++ r :: back ∧ r.works = true ∧
      ∀ q ∈ front, q.kind ≠ .travel ∧ q.works = false := by
  induction xs with
  | nil => exact absurd trivial h
  | cons r xs ih =>
    obtain ⟨htravel, hlater⟩ := not_or.mp h
    by_cases hworks : r.works = true
    · exact ⟨[], r, xs, rfl, hworks, by simp⟩
    · have hidle : r.works = false := by simpa using hworks
      obtain ⟨front, q, back, rfl, hq, hfront⟩ := ih fun hrest => hlater ⟨hidle, hrest⟩
      exact ⟨r :: front, q, back, rfl, hq, List.forall_mem_cons.mpr ⟨⟨htravel, hidle⟩, hfront⟩⟩

end TravelsFirst

private theorem foldl_mode_of_regular {records : List (Record α)}
    (regular : ∀ r ∈ records, r.Regular) :
    records.foldl Record.mode true = true := by
  induction records with
  | nil => rfl
  | cons r rest ih =>
    obtain ⟨hr, hrest⟩ := List.forall_mem_cons.mp regular
    rw [List.foldl_cons, hr.mode]
    exact ih hrest

/-- A program of regular records that sets absolute coordinates in front of all else fixes its
position exactly if a travel comes first. -/
theorem fixesPosition_iff_travelsFirst {lead rest : List (Record α)}
    (still : ∀ r ∈ lead, r.kind ≠ .travel ∧ r.works = false) (absolute : Absolute lead)
    (regular : ∀ r ∈ lead ++ rest, r.Regular) :
    (FixesPosition (lead ++ rest) ↔ TravelsFirst (lead ++ rest)) ∧
      (SameSites (lead ++ rest) ↔ TravelsFirst (lead ++ rest)) := by
  have hfixes (h : TravelsFirst (lead ++ rest)) : FixesPosition (lead ++ rest) := by
    rcases h.cases_first with hidle | ⟨front, move, back, hsplit, htravel, hfront⟩
    · intro front r back hsplit hworks
      have hrests := hidle r (by simp [hsplit])
      rw [hworks] at hrests
      cases hrests
    · have hmove : move ∈ lead ++ rest := by simp [hsplit]
      obtain ⟨hplace, hrests⟩ := (regular move hmove).travel htravel
      -- The travel is none of the records that set the coordinates, so it is behind them.
      have hbehind : ∃ between, front = lead ++ between := by
        rcases List.append_eq_append_iff.mp hsplit with
          ⟨between, hbetween, -⟩ | ⟨tail, hlead, htail⟩
        · exact ⟨between, hbetween⟩
        · cases tail with
          | nil => exact ⟨[], by simpa using hlead.symm⟩
          | cons q tail =>
            obtain ⟨rfl, -⟩ := List.cons_eq_cons.mp htail
            exact absurd htravel (still move (by simp [hlead])).1
      obtain ⟨between, rfl⟩ := hbehind
      rw [hsplit]
      refine fixesPosition_of_lead hfront hrests ?_ hplace
      unfold Absolute at absolute ⊢
      rw [List.append_assoc, List.foldl_append, absolute]
      refine foldl_mode_of_regular fun r hr => regular r ?_
      rw [hsplit]
      simp only [List.mem_append, List.mem_cons] at hr ⊢
      tauto
  have hfirst (h : SameSites (lead ++ rest)) : TravelsFirst (lead ++ rest) := by
    by_contra hnot
    obtain ⟨front, r, back, hsplit, hworks, hfront⟩ := TravelsFirst.exists_first_work hnot
    have hsilent : ∀ q ∈ front, q.Silent := by
      intro q hq
      exact (regular q (by simp [hsplit, hq])).other (hfront q hq).1 (hfront q hq).2
    rw [hsplit] at h
    exact (not_fixesPosition_of_silent hsilent hworks).2 h
  exact ⟨⟨fun h => hfirst h.sameSites, hfixes⟩, hfirst, fun h => (hfixes h).sameSites⟩

theorem DeadTravel.travelsFirst_remove {records : List (Record α)} (h : TravelsFirst records) :
    TravelsFirst (remove records) := by
  refine remove_induction (fun rs start first stop hfind h => ?_) h
  obtain ⟨pre, mid, last, post, rfl, hsilence, -, hlast, hmid, -⟩ := exists_silenced hfind
  rw [hsilence]
  refine h.append_imp fun _ => TravelsFirst.of_travel (fun r hr => ?_) hlast post
  obtain ⟨q, hq, rfl⟩ := List.mem_map.mp hr
  exact (Record.silent_of_comment (kind_hush (hmid q hq))).works

end Toolpath
