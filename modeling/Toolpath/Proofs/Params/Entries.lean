import Toolpath.Binary64
import Toolpath.Proofs.Diagnostic.Collected
import Toolpath.Proofs.Diagnostic.Filling
import Toolpath.Proofs.Params.Ranges

/-!
What becomes of the entries of a level. An entry that cannot be a value of the parameter it names is
reported. Every other one sets that parameter; but the small and the capital letter name the same
one, so there can be two such entries for it, and then the one with the small letter counts and
nothing is said about the other.
-/

set_option autoImplicit false

namespace Toolpath

namespace ParamTexts

private theorem mem_split {texts : ParamTexts} {front back : List (Char × String)} {key key' : Char}
    {text text' : String} (split : texts.entries = front ++ (key, text) :: back)
    (h : (key', text') ∈ texts.entries) :
    key'.toNat < key.toNat ∨ (key' = key ∧ text' = text) ∨
      (key', text') ∈ back ∧ key.toNat < key'.toNat := by
  have hsorted := texts.sorted
  rw [split, List.pairwise_append] at hsorted
  rw [split] at h
  rcases List.mem_append.mp h with hfront | hrest
  · exact .inl (hsorted.2.2 _ hfront _ List.mem_cons_self)
  · rcases List.mem_cons.mp hrest with heq | hback
    · exact .inr (.inl (Prod.mk.inj heq))
    · exact .inr (.inr ⟨hback, (List.pairwise_cons.mp hsorted.2.1).1 _ hback⟩)

end ParamTexts

namespace Overlay

variable {α : Type} [Scalar α]

/-- An entry at a level gives a value to the parameter that its letter names. -/
structure Accepts (level : Level) (bindings : Bindings) (entry : Char × String) (f : Field)
    (value : α) : Prop where
  names : f.Names entry.1
  allowed : level.allows f = true
  denotes : Denotes bindings entry.2 value
  admits : f.Admits value

/-- What is wrong with an entry at a level, with the message about it. -/
inductive Refuses (α : Type) [Scalar α] (level : Level) (bindings : Bindings)
    (entry : Char × String) : String → Prop
  | unknown (unnamed : ∀ f : Field, ¬ f.Names entry.1) :
      Refuses α level bindings entry (ParamError.unknownKey entry.1).message
  | notAllowed {f : Field} (names : f.Names entry.1) (barred : level.allows f = false) :
      Refuses α level bindings entry (ParamError.notAllowed f level).message
  | unbound {f : Field} {letter : Char} (names : f.Names entry.1) (allowed : level.allows f = true)
      (missing : bindings.substitute entry.2.toList = .error letter) :
      Refuses α level bindings entry (ParamError.unbound letter).message
  | invalid {f : Field} {filled : List Char} (names : f.Names entry.1)
      (allowed : level.allows f = true) (bound : bindings.substitute entry.2.toList = .ok filled)
      (meaningless : ∀ value : α, ¬ Denotes bindings entry.2 value) :
      Refuses α level bindings entry (ParamError.invalidValue f entry.2).message
  | outOfRange {f : Field} {value : α} {message : String} (names : f.Names entry.1)
      (allowed : level.allows f = true) (denotes : Denotes bindings entry.2 value)
      (barred : ¬ f.Admits value) (problem : f.rangeProblem value = some message) :
      Refuses α level bindings entry message

variable {level : Level} {bindings : Bindings} {key : Char} {text : String} {f : Field} {value : α}

private theorem refuses_of_readEntry {e : ParamError}
    (h : (readEntry level bindings key text : Except ParamError (Field × α)) = .error e) :
    Refuses α level bindings (key, text) e.message := by
  have hmeaningless {f : Field} (names : f.Names key) (allowed : level.allows f = true) (value : α) :
      ¬ Denotes bindings text value := by
    intro hdenotes
    rw [readEntry_eq_ok_iff.mpr ⟨names, allowed, hdenotes⟩] at h
    cases h
  unfold readEntry at h
  split at h
  · next hkey =>
    cases h
    refine .unknown fun f hnames => ?_
    rw [Field.ofKey?_eq_some_iff.mpr hnames] at hkey
    cases hkey
  · next field hkey =>
    have hnames := Field.ofKey?_eq_some_iff.mp hkey
    split at h
    · next hbarred =>
      cases h
      exact .notAllowed hnames (by simpa using hbarred)
    · next hallows =>
      have hallowed : level.allows field = true := by simpa using hallows
      split at h
      · next letter hmissing =>
        cases h
        exact .unbound hnames hallowed hmissing
      · next filled hfilled =>
        have herror : e = .invalidValue field text := by
          split at h
          · split at h
            · cases h
            · exact (Except.error.inj h).symm
          · exact (Except.error.inj h).symm
        rw [herror]
        exact .invalid hnames hallowed hfilled (hmeaningless hnames hallowed)

section Entries

variable {o : Overlay α} {entry : Char × String} {entries front back : List (Char × String)}

private theorem Accepts.unique {f' : Field} {value' : α} (h : Accepts level bindings entry f value)
    (h' : Accepts level bindings entry f' value') : f = f' ∧ value = value' :=
  ⟨h.names.unique h'.names, h.denotes.unique h'.denotes⟩

private theorem addEntry_cases [NumberScalar α] (o : Overlay α) (bindings : Bindings)
    (entry : Char × String) :
    (∃ f value, Accepts o.level bindings entry f value ∧
      o.addEntry bindings entry.1 entry.2 = (o.set f value, [])) ∨
    ∃ message, Refuses α o.level bindings entry message ∧
      (∀ f (value : α), ¬ Accepts o.level bindings entry f value) ∧
        o.addEntry bindings entry.1 entry.2 = (o, [.error o.context "{0}" [message]]) := by
  have hread {f : Field} {value : α} (h : Accepts o.level bindings entry f value) :
      readEntry o.level bindings entry.1 entry.2 = .ok (f, value) :=
    readEntry_eq_ok_iff.mpr ⟨h.names, h.allowed, h.denotes⟩
  rw [addEntry]
  cases hentry : (readEntry o.level bindings entry.1 entry.2 : Except ParamError (Field × α)) with
  | error e =>
    refine .inr ⟨e.message, refuses_of_readEntry hentry, fun f value haccepts => ?_, rfl⟩
    rw [hread haccepts] at hentry
    cases hentry
  | ok set =>
    obtain ⟨f, value⟩ := set
    obtain ⟨hnames, hallowed, hdenotes⟩ := readEntry_eq_ok_iff.mp hentry
    cases hproblem : f.rangeProblem value with
    | none =>
      have hadmits := Field.reads_admits f value hdenotes.isFinite hproblem
      exact .inl ⟨f, value, ⟨hnames, hallowed, hdenotes, hadmits⟩, by simp only [hproblem]⟩
    | some message =>
      have hbarred : ¬ f.Admits value := fun hadmits => by
        rw [Field.rangeProblem_of_admits hadmits] at hproblem
        cases hproblem
      refine .inr ⟨message, .outOfRange hnames hallowed hdenotes hbarred hproblem,
        fun g v haccepts => ?_, by simp only [hproblem]⟩
      obtain ⟨rfl, rfl⟩ := Prod.mk.inj (Except.ok.inj (hentry.symm.trans (hread haccepts)))
      exact hbarred haccepts.admits

private theorem addEntry_frame (o : Overlay α) (bindings : Bindings) (key : Char) (text : String) :
    (o.addEntry bindings key text).1.level = o.level ∧
      (o.addEntry bindings key text).1.context = o.context := by
  unfold addEntry
  split
  · exact ⟨rfl, rfl⟩
  · split <;> exact ⟨rfl, rfl⟩

private theorem addEntries_cons (o : Overlay α) (bindings : Bindings) (entry : Char × String)
    (entries : List (Char × String)) :
    o.addEntries bindings (entry :: entries) =
      (((o.addEntry bindings entry.1 entry.2).1.addEntries bindings entries).1,
        (o.addEntry bindings entry.1 entry.2).2 ++
          ((o.addEntry bindings entry.1 entry.2).1.addEntries bindings entries).2) := rfl

theorem addEntries_frame (o : Overlay α) (bindings : Bindings) (entries : List (Char × String)) :
    (o.addEntries bindings entries).1.level = o.level ∧
      (o.addEntries bindings entries).1.context = o.context := by
  induction entries generalizing o with
  | nil => exact ⟨rfl, rfl⟩
  | cons entry entries ih =>
    obtain ⟨hlevel, hcontext⟩ := addEntry_frame o bindings entry.1 entry.2
    obtain ⟨hlevels, hcontexts⟩ := ih (o.addEntry bindings entry.1 entry.2).1
    exact ⟨hlevels.trans hlevel, hcontexts.trans hcontext⟩

private theorem addEntries_append (o : Overlay α) (bindings : Bindings)
    (front back : List (Char × String)) :
    (o.addEntries bindings (front ++ back)).1 =
      ((o.addEntries bindings front).1.addEntries bindings back).1 := by
  induction front generalizing o with
  | nil => rfl
  | cons entry front ih => exact ih (o.addEntry bindings entry.1 entry.2).1

variable [NumberScalar α]

private theorem exists_refuses_of_mem (h : entry ∈ entries)
    (refused : ∀ f (value : α), ¬ Accepts o.level bindings entry f value) :
    ∃ message, Refuses α o.level bindings entry message ∧
      .error o.context "{0}" [message] ∈ (o.addEntries bindings entries).2 := by
  induction entries generalizing o with
  | nil => cases h
  | cons head entries ih =>
    rw [addEntries_cons]
    rcases List.mem_cons.mp h with rfl | h
    · rcases addEntry_cases o bindings entry with
        ⟨f, value, haccepts, -⟩ | ⟨message, hrefuses, -, heq⟩
      · exact absurd haccepts (refused f value)
      · rw [heq]
        exact ⟨message, hrefuses, List.mem_append_left _ (List.mem_singleton_self _)⟩
    · obtain ⟨hlevel, hcontext⟩ := addEntry_frame o bindings head.1 head.2
      rw [← hlevel] at refused ⊢
      rw [← hcontext]
      obtain ⟨message, hrefuses, hmem⟩ := ih h refused
      exact ⟨message, hrefuses, List.mem_append_right _ hmem⟩

private theorem exists_entry_of_mem {d : Diagnostic α} (h : d ∈ (o.addEntries bindings entries).2) :
    ∃ entry ∈ entries, (∀ f (value : α), ¬ Accepts o.level bindings entry f value) ∧
      ∃ message, Refuses α o.level bindings entry message ∧
        d = .error o.context "{0}" [message] := by
  induction entries generalizing o with
  | nil => cases h
  | cons head entries ih =>
    rw [addEntries_cons] at h
    rcases List.mem_append.mp h with h | h
    · rcases addEntry_cases o bindings head with ⟨_, _, -, heq⟩ | ⟨message, hrefuses, hrefused, heq⟩
      · rw [heq] at h
        cases h
      · rw [heq] at h
        exact ⟨head, List.mem_cons_self, hrefused, message, hrefuses, List.mem_singleton.mp h⟩
    · obtain ⟨hlevel, hcontext⟩ := addEntry_frame o bindings head.1 head.2
      obtain ⟨entry, hentry, hreported⟩ := ih h
      rw [hlevel, hcontext] at hreported
      exact ⟨entry, List.mem_cons_of_mem _ hentry, hreported⟩

private theorem get?_addEntries_of_none
    (none : ∀ entry ∈ entries, ∀ value : α, ¬ Accepts o.level bindings entry f value) :
    (o.addEntries bindings entries).1.get? f = o.get? f := by
  induction entries generalizing o with
  | nil => rfl
  | cons entry entries ih =>
    have hrest (later) (hlater : later ∈ entries) := none later (List.mem_cons_of_mem _ hlater)
    rw [addEntries_cons]
    rcases addEntry_cases o bindings entry with ⟨g, value, haccepts, heq⟩ | ⟨_, -, -, heq⟩
    · have hne : f ≠ g := fun h => none entry List.mem_cons_self value (h ▸ haccepts)
      rw [heq]
      exact (ih (o := o.set g value) hrest).trans (if_neg hne)
    · rw [heq]
      exact ih hrest

private theorem get?_addEntries_of_last (accepts : Accepts o.level bindings entry f value)
    (last : ∀ later ∈ back, ∀ other : α, ¬ Accepts o.level bindings later f other) :
    (o.addEntries bindings (front ++ entry :: back)).1.get? f = some value := by
  have hlevel : (o.addEntries bindings front).1.level = o.level :=
    (addEntries_frame o bindings front).1
  rw [addEntries_append]
  generalize (o.addEntries bindings front).1 = before at hlevel
  rw [← hlevel] at accepts last
  rcases addEntry_cases before bindings entry with ⟨g, v, haccepts, heq⟩ | ⟨_, -, hrefused, -⟩
  · obtain ⟨rfl, rfl⟩ := accepts.unique haccepts
    rw [addEntries_cons, heq]
    exact (get?_addEntries_of_none (o := before.set f value) last).trans (if_pos rfl)
  · exact absurd accepts (hrefused f value)

omit [NumberScalar α] in
private theorem none_or_exists_last (level : Level) (bindings : Bindings)
    (entries : List (Char × String)) (f : Field) :
    (∀ entry ∈ entries, ∀ value : α, ¬ Accepts level bindings entry f value) ∨
      ∃ front entry back, ∃ value : α, entries = front ++ entry :: back ∧
        Accepts level bindings entry f value ∧
          ∀ later ∈ back, ∀ other : α, ¬ Accepts level bindings later f other := by
  induction entries with
  | nil => exact .inl (by simp)
  | cons entry entries ih =>
    rcases ih with hnone | ⟨front, last, back, value, rfl, haccepts, hlast⟩
    · by_cases hentry : ∃ value : α, Accepts level bindings entry f value
      · obtain ⟨value, haccepts⟩ := hentry
        exact .inr ⟨[], entry, entries, value, rfl, haccepts, hnone⟩
      · refine .inl fun other hother value haccepts => ?_
        rcases List.mem_cons.mp hother with rfl | hother
        · exact hentry ⟨value, haccepts⟩
        · exact hnone other hother value haccepts
    · exact .inr ⟨entry :: front, last, back, value, rfl, haccepts, hlast⟩

private theorem get?_read_cases (level : Level) (context : Context α) (texts : ParamTexts)
    (bindings : Bindings) (f : Field) :
    ((read level context texts bindings).1.get? f = none ∧
      ∀ entry ∈ texts.entries, ∀ value : α, ¬ Accepts level bindings entry f value) ∨
    ∃ front entry back, ∃ value : α, texts.entries = front ++ entry :: back ∧
      Accepts level bindings entry f value ∧
        (∀ later ∈ back, ∀ other : α, ¬ Accepts level bindings later f other) ∧
          (read level context texts bindings).1.get? f = some value := by
  rcases none_or_exists_last (α := α) level bindings texts.entries f with
    hnone | ⟨front, entry, back, value, hsplit, haccepts, hlast⟩
  · exact .inl ⟨get?_addEntries_of_none hnone, hnone⟩
  · refine .inr ⟨front, entry, back, value, hsplit, haccepts, hlast, ?_⟩
    rw [read, hsplit]
    exact get?_addEntries_of_last haccepts hlast

private theorem get?_read_eq_iff {context : Context α} {texts : ParamTexts}
    (h : (key, text) ∈ texts.entries) (accepts : Accepts level bindings (key, text) f value) :
    (read level context texts bindings).1.get? f = some value ↔
      ∀ text' value', key = f.key → (f.key.toLower, text') ∈ texts.entries →
        Accepts level bindings (f.key.toLower, text') f value' → value' = value := by
  rcases get?_read_cases level context texts bindings f with
    ⟨-, hnone⟩ | ⟨front, ⟨lastKey, lastText⟩, back, lastValue, hsplit, haccepts, hlast, hget⟩
  · exact absurd accepts (hnone _ h value)
  · have hmem : (lastKey, lastText) ∈ texts.entries := by
      rw [hsplit]
      exact List.mem_append_right _ List.mem_cons_self
    -- no entry for the parameter comes after the last one
    have horder {k : Char} {t : String} {v : α} (hentry : (k, t) ∈ texts.entries)
        (hk : Accepts level bindings (k, t) f v) : k.toNat < lastKey.toNat ∨ v = lastValue := by
      rcases ParamTexts.mem_split hsplit hentry with hbefore | ⟨rfl, rfl⟩ | ⟨hafter, -⟩
      · exact .inl hbefore
      · exact .inr (hk.unique haccepts).2
      · exact absurd hk (hlast _ hafter v)
    rw [hget, Option.some.injEq]
    constructor
    · rintro rfl text' value' - hsmall hsmallAccepts
      refine (horder hsmall hsmallAccepts).resolve_left fun hless => ?_
      have hcase := f.key_lt_toLower
      have hcapital : f.key.toLower = f.key :=
        (hsmallAccepts.names.eq_of_lt haccepts.names hless).1
      rw [hcapital] at hcase
      exact Nat.lt_irrefl _ hcase
    · intro hsmall
      rcases horder h accepts with hless | heq
      · obtain ⟨hkey, hlastKey⟩ := accepts.names.eq_of_lt haccepts.names hless
        dsimp only at hkey hlastKey
        subst hlastKey
        exact hsmall lastText lastValue hkey hmem haccepts
      · exact heq.symm

/-- What becomes of every entry of a level. If it is not a value of the parameter it names, the
message about it is reported. If it is, it is in effect, unless its letter is the capital one and an
entry with the small letter gives the parameter another value. All that is reported is about entries
of the first sort, so of this nothing is; and a parameter that is set has its value from an entry.
-/
theorem read_entries (level : Level) (context : Context α) (texts : ParamTexts)
    (bindings : Bindings) (r : Report α) :
    (∀ entry ∈ texts.entries, (∀ f (value : α), ¬ Accepts level bindings entry f value) →
      ∃ message, Refuses α level bindings entry message ∧
        Diagnostic.lead context ++ message ∈
          (r.addAll (read level context texts bindings).2).texts) ∧
    (∀ key text f value, (key, text) ∈ texts.entries → Accepts level bindings (key, text) f value →
      ((read level context texts bindings).1.get? f = some value ↔
        ∀ text' value', key = f.key → (f.key.toLower, text') ∈ texts.entries →
          Accepts level bindings (f.key.toLower, text') f value' → value' = value)) ∧
    (∀ d ∈ (read level context texts bindings).2, ∃ entry ∈ texts.entries,
      (∀ f (value : α), ¬ Accepts level bindings entry f value) ∧
        ∃ message, Refuses α level bindings entry message ∧ d = .error context "{0}" [message]) ∧
    ∀ f value, (read level context texts bindings).1.get? f = some value →
      ∃ entry ∈ texts.entries, Accepts level bindings entry f value := by
  refine ⟨fun entry hentry hrefused => ?_, fun key text f value => get?_read_eq_iff,
    fun d => exists_entry_of_mem (o := empty level context), fun f value hvalue => ?_⟩
  · obtain ⟨message, hrefuses, hmem⟩ :=
      exists_refuses_of_mem (o := empty level context) hentry hrefused
    have htext := Report.mem_texts_addAll r hmem
    rw [Diagnostic.text_error_single] at htext
    exact ⟨message, hrefuses, htext⟩
  · rcases get?_read_cases level context texts bindings f with
      ⟨hget, -⟩ | ⟨front, entry, back, lastValue, hsplit, haccepts, -, hget⟩
    · rw [hget] at hvalue
      cases hvalue
    · obtain rfl := Option.some.inj (hget.symm.trans hvalue)
      refine ⟨entry, ?_, haccepts⟩
      rw [hsplit]
      exact List.mem_append_right _ List.mem_cons_self

end Entries

section Twice

open Binary64

def twoFeeds : ParamTexts := .ofList [('F', "800"), ('f', "300")]

theorem read_entries_twoFeeds :
    (read .path .nowhere twoFeeds .empty).1.get? .feedRate = some (300.0 : Float) := by
  have haccepts : Accepts .path .empty ('f', "300") .feedRate (300.0 : Float) :=
    ⟨.inr rfl, rfl, ⟨"300".toList, ⟨false, 300, 0⟩, by decide +kernel, by decide +kernel,
      by decide +kernel, by decide +kernel⟩,
      show (0.0 : Float) < 300.0 by decide +kernel⟩
  have heffect := (read_entries (α := Float) .path .nowhere twoFeeds .empty .empty).2.1
  exact (heffect 'f' "300" .feedRate 300.0 (by decide +kernel) haccepts).mpr
    fun _ _ hcapital => absurd hcapital (by decide)

/-- The entry with the capital letter is lost: it is a value of the feed rate and not in effect, and
nothing is reported. -/
theorem capital_entry_lost : ('F', "800") ∈ twoFeeds.entries ∧
    Accepts .path .empty ('F', "800") .feedRate (800.0 : Float) ∧
    (read .path .nowhere twoFeeds .empty).1.get? .feedRate ≠ some (800.0 : Float) ∧
    ((Report.empty : Report Float).addAll (read .path .nowhere twoFeeds .empty).2).texts = [] :=
  ⟨by decide +kernel,
    ⟨.inl rfl, rfl, ⟨"800".toList, ⟨false, 800, 0⟩, by decide +kernel, by decide +kernel,
      by decide +kernel, by decide +kernel⟩,
      show (0.0 : Float) < 800.0 by decide +kernel⟩,
    by decide +kernel, by decide +kernel⟩

end Twice

end Overlay

end Toolpath
