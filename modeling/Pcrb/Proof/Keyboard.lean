import Pcrb.Proof.Editing
import Pcrb.Proof.Waiting
import Pcrb.Spec.Keyboard

/-!
# Lines from the keyboard

The lines that `cli_task` can be given are the texts of at most 32 characters, none of them a
zero, a backspace or a carriage return (`Typable`). `keyboard_refines`: the firmware with its
keyboard reaches and shows what the firmware does that is given any such lines whole.
-/

namespace Pcrb

open Lts

/-- A text that can be typed. -/
def Typable (line : List UInt8) : Prop :=
  line.length ≤ lineSize - 1 ∧ ∀ b ∈ line, b ≠ 0 ∧ b ≠ 8 ∧ b ≠ 13

/-- A line that `cli_task` takes at its prompt can be typed. -/
def TypableAt (s : State) (l : Label) : Prop :=
  ∀ line, l = .cli line → s.cli = .prompt → Typable line

/-! ### What can be typed -/

/-- The cursor is in the buffer, with neither backspace nor carriage return in front of it. -/
structure EditorSane (e : Editor) : Prop where
  nonneg : 0 ≤ e.pos
  bound : e.pos ≤ lineSize - 1
  plain : ∀ i, 0 ≤ i → i < e.pos → e.line i ≠ 8 ∧ e.line i ≠ 13

variable {e : Editor} {key : Key}

/-- A string in the buffer is the buffer up to a zero. -/
theorem getElem_lineText (line : ℤ → UInt8) {i : ℕ} (h : i < (Editor.lineText line).length) :
    (Editor.lineText line)[i] = line i ∧ line i ≠ 0 := by
  have hfirst : Editor.lineText line <+: (List.range lineSize).map fun i : ℕ => line (i : ℤ) :=
    List.takeWhile_prefix _
  have heq : (Editor.lineText line)[i] = line i := by
    rw [hfirst.getElem h, List.getElem_map, List.getElem_range]
  have hne := List.mem_takeWhile_imp (List.getElem_mem h)
  rw [heq] at hne
  exact ⟨heq, by simpa using hne⟩

/-- A line is made of what lies in front of the cursor. -/
theorem typable_lineText (h : EditorSane e) :
    Typable (Editor.lineText (Function.update e.line e.pos 0)) := by
  obtain ⟨n, hn⟩ := Int.eq_ofNat_of_zero_le h.nonneg
  have hbound := h.bound
  unfold lineSize at hbound
  have hlen : (Editor.lineText (Function.update e.line e.pos 0)).length ≤ n := by
    by_contra hlt
    have hzero := (getElem_lineText _ (Nat.lt_of_not_le hlt)).2
    rw [← hn, Function.update_self] at hzero
    exact hzero rfl
  refine ⟨by unfold lineSize; omega, fun b hb => ?_⟩
  obtain ⟨i, hi, rfl⟩ := List.mem_iff_getElem.1 hb
  obtain ⟨heq, hne⟩ := getElem_lineText _ hi
  rw [heq]
  refine ⟨hne, ?_⟩
  rw [Function.update_of_ne (by omega)]
  exact h.plain i (by omega) (by omega)

/-- **A key** keeps it so, and hands over nothing else. -/
theorem sane_turn (h : EditorSane e) (answer : List UInt8) (key : Key) :
    EditorSane (e.turn answer key).editor ∧
      ∀ line, (e.turn answer key).handed = some line → Typable line := by
  obtain ⟨hnonneg, hbound, hplain⟩ := h
  have hmod : e.pos % 2 ^ 32 = e.pos := by
    unfold lineSize at hbound
    exact Int.emod_eq_of_lt hnonneg (by omega)
  cases key with
  | eof => exact ⟨⟨hnonneg, hbound, hplain⟩, by simp [Editor.turn]⟩
  | char c =>
    simp only [Editor.turn, hmod]
    split_ifs with h13 h8 hpos hroom
    · refine ⟨⟨le_rfl, show (0 : ℤ) ≤ lineSize - 1 by decide, fun i h0 hi => ?_⟩, ?_⟩
      · exact absurd hi (not_lt.2 h0)
      · intro line hline
        rw [← Option.some.inj hline]
        exact typable_lineText ⟨hnonneg, hbound, hplain⟩
    · exact ⟨⟨by dsimp only; omega, by dsimp only; omega,
        fun i h0 hi => hplain i h0 (by dsimp only at hi; omega)⟩, by simp⟩
    · exact ⟨⟨hnonneg, hbound, hplain⟩, by simp⟩
    · refine ⟨⟨by dsimp only; omega, by dsimp only; omega, fun i h0 hi => ?_⟩, by simp⟩
      dsimp only at hi ⊢
      rcases Int.lt_or_eq_of_le (Int.lt_add_one_iff.1 hi) with hlt | rfl
      · rw [Function.update_of_ne (by omega)]
        exact hplain i h0 hlt
      · rw [Function.update_self]
        exact ⟨h8, h13⟩
    · exact ⟨⟨hnonneg, hbound, hplain⟩, by simp⟩

/-! ### The keyboard's steps -/

variable {k k' : Keyed} {s : State} {es : List Event} {l : Label}

/-- A step of `cli_task` at its prompt. -/
def AtPrompt (s : State) (l : Label) : Prop := (∃ line, l = .cli line) ∧ s.cli = .prompt

theorem step_task_iff : keyboard.step k (.task l) = some (k', es) ↔
    ¬ AtPrompt k.firmware l ∧ ∃ s, firmware.step k.firmware l = some (s, es) ∧
      k' = { k with firmware := s } := by
  have hlift : taskStep k l = some (k', es) ↔ ∃ s, firmware.step k.firmware l = some (s, es) ∧
      k' = { k with firmware := s } := by
    unfold taskStep
    rw [Option.map_eq_some_iff]
    constructor
    · rintro ⟨⟨s, es'⟩, hs, he⟩
      obtain ⟨rfl, rfl⟩ := Prod.mk.inj he
      exact ⟨s, hs, rfl⟩
    · rintro ⟨s, hs, rfl⟩
      exact ⟨_, hs, rfl⟩
  rw [← hlift]
  cases l with
  | cli line =>
    change (if k.firmware.cli = .prompt then none else taskStep k (.cli line)) = _ ↔ _
    by_cases hpc : k.firmware.cli = .prompt
    · simp [AtPrompt, hpc]
    · simp [AtPrompt, hpc]
  | init | wifi ok | callback | switch | network input | monitor level =>
    change taskStep k _ = _ ↔ _
    simp [AtPrompt]

/-- **A key** changes the buffer, or hands over a line. -/
theorem step_key (hs : keyboard.step k (.key key) = some (k', es)) :
    k.firmware.cli = .prompt ∧ k'.editor = (k.editor.turn [] key).editor ∧
      ((k.editor.turn [] key).handed = none ∧ k'.firmware = k.firmware ∧ es = [] ∨
        ∃ line, (k.editor.turn [] key).handed = some line ∧
          firmware.step k.firmware (.cli line) = some (k'.firmware, es)) := by
  change keyStep k key = _ at hs
  unfold keyStep at hs
  split_ifs at hs with hpc
  split at hs
  case h_1 hnone =>
    obtain ⟨rfl, rfl⟩ := Prod.mk.inj (Option.some.inj hs)
    exact ⟨hpc.2, rfl, Or.inl ⟨hnone, rfl, rfl⟩⟩
  case h_2 line hhanded =>
    obtain ⟨⟨s, es'⟩, hstep, he⟩ := Option.map_eq_some_iff.1 hs
    obtain ⟨rfl, rfl⟩ := Prod.mk.inj he
    exact ⟨hpc.2, rfl, Or.inr ⟨line, hhanded, hstep⟩⟩

/-- What is done with the keyboard can be done with lines. -/
theorem keyboard_simulates : Simulation keyboard (fun _ _ => True) some firmware TypableAt some
    fun k s => k.firmware = s ∧ EditorSane k.editor where
  init := by
    rintro k ⟨h0, heditor⟩
    refine ⟨_, [], _, h0, .nil, by simp, rfl, rfl, ?_⟩
    rw [heditor]
    exact ⟨le_rfl, show (0 : ℤ) ≤ lineSize - 1 by decide, fun i h0 hi => absurd hi (not_lt.2 h0)⟩
  step := by
    rintro k l k' es _ - ⟨rfl, hsane⟩ hs
    cases l with
    | key key =>
      obtain ⟨hprompt, heditor, hkey⟩ := step_key hs
      obtain ⟨hsane', htypable⟩ := sane_turn hsane [] key
      rw [← heditor] at hsane'
      rcases hkey with ⟨-, hsame, rfl⟩ | ⟨line, hhanded, hstep⟩
      · exact ⟨[], _, .nil, by simp, rfl, hsame, hsane'⟩
      · refine ⟨_, _, System.Run.nil.snoc hstep, ?_, by simp, rfl, hsane'⟩
        rintro tn htn line' hline -
        rw [List.mem_singleton.1 htn] at hline
        rw [← Label.cli.inj hline]
        exact htypable line hhanded
    | task l =>
      obtain ⟨hprompt, s, hstep, rfl⟩ := step_task_iff.1 hs
      refine ⟨_, _, System.Run.nil.snoc hstep, ?_, by simp, rfl, hsane⟩
      rintro tn htn line hline hcli
      rw [List.mem_singleton.1 htn] at hline hcli
      exact absurd ⟨⟨line, hline⟩, hcli⟩ hprompt

/-! ### Typing a line -/

theorem keyStep_none (hcr : k.firmware.init.created .cli = true) (hpc : k.firmware.cli = .prompt)
    (h : (k.editor.turn [] key).handed = none) :
    keyboard.step k (.key key) = some ({ k with editor := (k.editor.turn [] key).editor }, []) := by
  change keyStep k key = _
  unfold keyStep
  rw [if_pos ⟨hcr, hpc⟩]
  simp only [h]

theorem keyStep_some {line : List UInt8} (hcr : k.firmware.init.created .cli = true)
    (hpc : k.firmware.cli = .prompt) (h : (k.editor.turn [] key).handed = some line)
    (hs : firmware.step k.firmware (.cli line) = some (s, es)) :
    keyboard.step k (.key key) = some (⟨s, (k.editor.turn [] key).editor⟩, es) := by
  change keyStep k key = _
  unfold keyStep
  rw [if_pos ⟨hcr, hpc⟩]
  simp only [h, hs, Option.map_some]

/-- The characters of a line go into the buffer. -/
theorem run_keys (hcr : s.init.created .cli = true) (hpc : s.cli = .prompt) {rest : List UInt8}
    (hplain : ∀ b ∈ rest, b ≠ 0 ∧ b ≠ 8 ∧ b ≠ 13) :
    ∀ {e : Editor} {text : List UInt8}, EditorInv e text →
      (text ++ rest).length ≤ lineSize - 1 →
      ∃ tr e', keyboard.Run ⟨s, e⟩ tr ⟨s, e'⟩ ∧ history tr = [] ∧ EditorInv e' (text ++ rest) := by
  induction rest with
  | nil =>
    intro e text h _
    exact ⟨[], e, .nil, rfl, by rwa [List.append_nil]⟩
  | cons c rest ih =>
    intro e text h hlen
    obtain ⟨h0, h8, h13⟩ := hplain c List.mem_cons_self
    have hlen' : text.length + (rest.length + 1) ≤ lineSize - 1 := by
      rwa [List.length_append, List.length_cons] at hlen
    have hreturn : Key.char c ≠ .char 13 := fun he => h13 (Key.char.inj he)
    have hzero : Key.char c ≠ .char 0 := fun he => h0 (Key.char.inj he)
    obtain ⟨hturn, hnone, -⟩ := turn_inv h [] hreturn hzero
    have hedit : edit text (.char c) = text ++ [c] := by
      rw [edit, if_neg h8, if_pos (by omega)]
    rw [hedit] at hturn
    obtain ⟨tr, e', hrun, hhist, hinv⟩ := ih (fun b hb => hplain b (List.mem_cons_of_mem _ hb))
      hturn (by rw [List.length_append, List.length_append, List.length_singleton]; omega)
    rw [List.append_assoc, List.singleton_append] at hinv
    have hstep := keyStep_none (k := ⟨s, e⟩) hcr hpc hnone
    refine ⟨_, e', (System.Run.nil.snoc hstep).append hrun, ?_, hinv⟩
    rw [history_append, hhist]
    rfl

/-- **A line is typed**: its characters, and a carriage return. -/
theorem run_line {line : List UInt8} {s' : State} {e : Editor} (h : EditorInv e [])
    (hpc : s.cli = .prompt) (htypable : Typable line)
    (hs : firmware.step s (.cli line) = some (s', es)) :
    ∃ tr e', keyboard.Run ⟨s, e⟩ tr ⟨s', e'⟩ ∧ history tr = es ∧ EditorInv e' [] := by
  have hcr : s.init.created .cli = true :=
    created_of_enabled ⟨.cli line, ⟨rfl, by simp⟩, Option.isSome_iff_exists.2 ⟨_, hs⟩⟩
  obtain ⟨tr, e', hrun, hhist, hinv⟩ := run_keys hcr hpc htypable.2 h htypable.1
  rw [List.nil_append] at hinv
  have hturn : e'.turn [] (.char 13) = e'.submit [] := by
    rw [Editor.turn, if_pos rfl]
  obtain ⟨hhanded, hempty, -⟩ := submit_inv hinv []
  rw [← hturn] at hhanded hempty
  refine ⟨_, _, hrun.snoc (keyStep_some (k := ⟨s, e'⟩) hcr hpc hhanded hs), ?_, hempty⟩
  rw [history_append, hhist]
  exact history_singleton _

/-- What is done with lines that can be typed can be done with the keyboard. -/
theorem lines_simulate : Simulation firmware TypableAt some keyboard (fun _ _ => True) some
    fun s k => k.firmware = s ∧ EditorInv k.editor [] where
  init := by
    intro s h0
    refine ⟨⟨s, Editor.initial⟩, [], _, ⟨h0, rfl⟩, .nil, by simp, rfl, rfl, ?_⟩
    exact ⟨rfl, Nat.zero_le _, fun i hi => absurd hi (Nat.not_lt_zero i), List.not_mem_nil⟩
  step := by
    rintro s l s' es ⟨s₁, e⟩ htypable ⟨hsame, h⟩ hs
    obtain rfl : s₁ = s := hsame
    by_cases hprompt : AtPrompt s₁ l
    · obtain ⟨⟨line, rfl⟩, hpc⟩ := hprompt
      obtain ⟨tr, e', hrun, hhist, hinv⟩ := run_line h hpc (htypable line rfl hpc) hs
      refine ⟨tr, _, hrun, by simp, ?_, rfl, hinv⟩
      rw [trace, hhist]
    · have hstep : keyboard.step ⟨s₁, e⟩ (.task l) = some (⟨s', e⟩, es) :=
        step_task_iff.2 ⟨hprompt, s', hs, rfl⟩
      exact ⟨_, _, System.Run.nil.snoc hstep, by simp, by simp, rfl, h⟩

/-- **The keyboard adds nothing and hides nothing but the lines that cannot be typed.** A state of
the firmware can be reached from the keyboard, with this to show, exactly if it can be
reached with it from lines that can be typed. -/
theorem keyboard_refines (s : State) (hist : List Event) :
    (∃ k₀ tr k, keyboard.init k₀ ∧ keyboard.Run k₀ tr k ∧ k.firmware = s ∧ history tr = hist) ↔
      ∃ s₀ tr, firmware.init s₀ ∧ firmware.Run s₀ tr s ∧
        (∀ tn ∈ tr, TypableAt tn.src tn.label) ∧ history tr = hist := by
  constructor
  · rintro ⟨k₀, tr, k, h0, hrun, rfl, rfl⟩
    obtain ⟨s₀, tr', s, hs₀, hrun', hC', htrace, rfl, -⟩ :=
      keyboard_simulates.reach h0 hrun fun _ _ => trivial
    simp only [trace, List.filterMap_some] at htrace
    exact ⟨s₀, tr', hs₀, hrun', hC', htrace⟩
  · rintro ⟨s₀, tr, h0, hrun, hC, rfl⟩
    obtain ⟨k₀, tr', k, hk₀, hrun', -, htrace, hsame, -⟩ := lines_simulate.reach h0 hrun hC
    simp only [trace, List.filterMap_some] at htrace
    exact ⟨k₀, tr', k, hk₀, hrun', hsame, htrace⟩

end Pcrb
