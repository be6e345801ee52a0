import Pcrb.Proof.Printed

/-!
# The line editor refines a bounded text

The reference is a text of at most 32 characters (`edit`). `EditorInv` relates the line
buffer to it, `Shows` the terminal. `edited_turn` says once what a key can do; `turn_inv` and
`step_shows` are the step lemmas.

`editor_refines`: over any keys, the cursor and every index into the line stay in bounds,
each return hands over the text typed since the last one, and the terminal shows it behind
the prompt until the end of the input is reported. `shows_of_answered` is the terminal with
what the runs really print.
-/

namespace Pcrb

/-! ### The reference -/

/-- What a key does to the text. -/
def edit (text : List UInt8) : Key → List UInt8
  | .eof => text
  | .char c =>
    if c = 8 then text.dropLast
    else if text.length < lineSize - 1 then text ++ [c]
    else text

/-- The keys since the last carriage return. -/
def sinceReturn (keys : List Key) : List Key :=
  (keys.reverse.takeWhile fun key => key ≠ .char 13).reverse

/-- The text that these keys make. -/
def typed (keys : List Key) : List UInt8 := (sinceReturn keys).foldl edit []

theorem sinceReturn_append (keys : List Key) {key : Key} (h : key ≠ .char 13) :
    sinceReturn (keys ++ [key]) = sinceReturn keys ++ [key] := by
  unfold sinceReturn
  rw [List.reverse_append, List.reverse_singleton, List.singleton_append, List.takeWhile_cons,
    if_pos (by simpa using h), List.reverse_cons]

theorem sinceReturn_return (keys : List Key) : sinceReturn (keys ++ [.char 13]) = [] := by
  unfold sinceReturn
  rw [List.reverse_append, List.reverse_singleton, List.singleton_append, List.takeWhile_cons,
    if_neg (by simp), List.reverse_nil]

theorem typed_append (keys : List Key) {key : Key} (h : key ≠ .char 13) :
    typed (keys ++ [key]) = edit (typed keys) key := by
  rw [typed, sinceReturn_append keys h, List.foldl_append]
  rfl

theorem typed_return (keys : List Key) : typed (keys ++ [.char 13]) = [] := by
  rw [typed, sinceReturn_return]
  rfl

/-! ### The line buffer -/

/-- The buffer holds the text up to the cursor. -/
structure EditorInv (e : Editor) (text : List UInt8) : Prop where
  pos : e.pos = text.length
  bound : text.length ≤ lineSize - 1
  line : ∀ (i : ℕ) (h : i < text.length), e.line i = text[i]
  nonzero : (0 : UInt8) ∉ text

variable {e : Editor} {text : List UInt8}

/-- A buffer that holds the text and a zero behind it is the text, as a string. -/
theorem lineText_eq {line : ℤ → UInt8} (hbound : text.length ≤ lineSize - 1)
    (hline : ∀ (i : ℕ) (h : i < text.length), line i = text[i]) (hzero : line text.length = 0)
    (hnonzero : (0 : UInt8) ∉ text) : Editor.lineText line = text := by
  have hsplit : (List.range lineSize).map (fun i : ℕ => line i) =
      text ++ 0 :: ((List.range (lineSize - text.length - 1)).map
        fun i : ℕ => line (text.length + 1 + i : ℕ)) := by
    unfold lineSize at hbound ⊢
    apply List.ext_getElem
    · simp only [List.length_map, List.length_range, List.length_append, List.length_cons]
      omega
    · intro i h1 h2
      rw [List.getElem_map, List.getElem_range]
      rcases Nat.lt_trichotomy i text.length with hi | hi | hi
      · rw [List.getElem_append_left hi]
        exact hline i hi
      · rw [List.getElem_append_right (by omega)]
        simp [hi, hzero]
      · rw [List.getElem_append_right (by omega)]
        obtain ⟨j, rfl⟩ : ∃ j, i = text.length + 1 + j := ⟨i - text.length - 1, by omega⟩
        simp only [show text.length + 1 + j - text.length = j + 1 by omega, List.getElem_cons_succ,
          List.getElem_map, List.getElem_range]
  unfold Editor.lineText
  rw [hsplit, cString_append_zero]
  exact cString_eq_self hnonzero

theorem mem_below {n : ℕ} {i : ℤ} (h : i ∈ Editor.below n) : 0 ≤ i ∧ i < n := by
  obtain ⟨j, hj, rfl⟩ := List.mem_map.1 h
  have := List.mem_range.1 hj
  omega

/-- **A return** hands over the text and empties the buffer. -/
theorem submit_inv (h : EditorInv e text) (answer : List UInt8) :
    (e.submit answer).handed = some text ∧ EditorInv (e.submit answer).editor [] ∧
      ∀ i ∈ (e.submit answer).indices, 0 ≤ i ∧ i < lineSize := by
  have hpos := h.pos
  have hbound := h.bound
  have htext : Editor.lineText (Function.update e.line e.pos 0) = text := by
    apply lineText_eq hbound _ _ h.nonzero
    · intro i hi
      rw [Function.update_of_ne (by omega)]
      exact h.line i hi
    · rw [← hpos, Function.update_self]
  refine ⟨congrArg some htext, ⟨rfl, Nat.zero_le _, fun i hi => absurd hi (Nat.not_lt_zero i),
    List.not_mem_nil⟩, fun i hi => ?_⟩
  simp only [Editor.submit, htext, List.cons_append, List.mem_cons, List.mem_append] at hi
  unfold lineSize at hbound ⊢
  rcases hi with rfl | hi | hi
  · omega
  · have := mem_below hi
    omega
  · exact mem_below hi

/-- What any other key can do, if the buffer holds `text`: the turn, and the text
afterwards. -/
inductive Edited (e : Editor) (text : List UInt8) : Key → Turn → List UInt8 → Prop
  | eof : Edited e text .eof ⟨e, [], none, ascii "WTF, we got an EOF?\r\n"⟩ text
  | ignored {c} : Edited e text (.char c) ⟨e, [], none, []⟩ text
  | erased : text ≠ [] →
      Edited e text (.char 8) ⟨{ e with pos := e.pos - 1 }, [], none, [8, 32, 8]⟩ text.dropLast
  | inserted {c} : c ≠ 8 → c ≠ 13 → text.length < lineSize - 1 →
      Edited e text (.char c) ⟨⟨Function.update e.line e.pos c, e.pos + 1⟩, [e.pos], none, [c]⟩
        (text ++ [c])

theorem edited_turn (h : EditorInv e text) (answer : List UInt8) {key : Key}
    (hreturn : key ≠ .char 13) : Edited e text key (e.turn answer key) (edit text key) := by
  have hpos := h.pos
  have hbound := h.bound
  unfold lineSize at hbound
  cases key with
  | eof => exact .eof
  | char c =>
    have hc13 : c ≠ 13 := fun hc => hreturn (by rw [hc])
    simp only [Editor.turn, edit]
    rw [if_neg hc13]
    by_cases hc8 : c = 8
    · rw [if_pos hc8, if_pos hc8, hc8]
      by_cases hp : 0 < e.pos
      · rw [if_pos hp]
        have hne : text ≠ [] := by
          rintro rfl
          simp only [List.length_nil] at hpos
          omega
        exact .erased hne
      · have hnil : text = [] := List.eq_nil_of_length_eq_zero (by omega)
        rw [if_neg hp, hnil]
        exact .ignored
    · -- the conversion to `size_t` changes nothing
      have hmod : e.pos % 2 ^ 32 = e.pos := Int.emod_eq_of_lt (by omega) (by omega)
      have hroom : e.pos < (lineSize : ℤ) - 1 ↔ text.length < lineSize - 1 := by
        unfold lineSize
        omega
      rw [if_neg hc8, if_neg hc8, hmod]
      by_cases hlt : text.length < lineSize - 1
      · rw [if_pos (hroom.2 hlt), if_pos hlt]
        exact .inserted hc8 hc13 hlt
      · rw [if_neg (mt hroom.1 hlt), if_neg hlt]
        exact .ignored

/-- The last character is deleted; it stays in the buffer, behind the cursor. -/
theorem erase_inv (h : EditorInv e text) (hne : text ≠ []) :
    EditorInv { e with pos := e.pos - 1 } text.dropLast := by
  have hpos := h.pos
  have hbound := h.bound
  have hlen := List.length_pos_of_ne_nil hne
  refine ⟨?_, ?_, fun i hi => ?_, fun hmem => h.nonzero (List.mem_of_mem_dropLast hmem)⟩
  · rw [List.length_dropLast]
    dsimp only
    omega
  · rw [List.length_dropLast]
    omega
  · rw [List.getElem_dropLast]
    rw [List.length_dropLast] at hi
    exact h.line i (by omega)

/-- A character goes in at the cursor. -/
theorem insert_inv (h : EditorInv e text) (hroom : text.length < lineSize - 1) {c : UInt8}
    (hc : 0 ≠ c) :
    EditorInv ⟨Function.update e.line e.pos c, e.pos + 1⟩ (text ++ [c]) := by
  have hpos := h.pos
  refine ⟨?_, ?_, fun i hi => ?_, fun hmem => ?_⟩
  · rw [List.length_append, List.length_singleton]
    dsimp only
    omega
  · rw [List.length_append, List.length_singleton]
    omega
  · rw [List.length_append, List.length_singleton] at hi
    dsimp only
    rcases Nat.eq_or_lt_of_le (Nat.le_of_lt_succ hi) with hlast | hlt
    · subst hlast
      rw [← hpos, Function.update_self, List.getElem_append_right le_rfl]
      simp
    · rw [Function.update_of_ne (by omega), List.getElem_append_left hlt]
      exact h.line i hlt
  · rcases List.mem_append.1 hmem with hmem | hmem
    · exact h.nonzero hmem
    · exact hc (List.mem_singleton.1 hmem)

/-- **Any other key** does to the buffer what it does to the text, and indexes it in bounds. -/
theorem turn_inv (h : EditorInv e text) (answer : List UInt8) {key : Key} (hreturn : key ≠ .char 13)
    (hzero : key ≠ .char 0) :
    EditorInv (e.turn answer key).editor (edit text key) ∧ (e.turn answer key).handed = none ∧
      ∀ i ∈ (e.turn answer key).indices, 0 ≤ i ∧ i < lineSize := by
  have hedited := edited_turn h answer hreturn
  generalize e.turn answer key = t, edit text key = text' at hedited ⊢
  have hpos := h.pos
  cases hedited with
  | eof => exact ⟨h, rfl, fun i hi => absurd hi List.not_mem_nil⟩
  | ignored => exact ⟨h, rfl, fun i hi => absurd hi List.not_mem_nil⟩
  | erased hne => exact ⟨erase_inv h hne, rfl, fun i hi => absurd hi List.not_mem_nil⟩
  | @inserted c _ _ hroom =>
    have hc : (0 : UInt8) ≠ c := fun hc => hzero (by rw [hc])
    refine ⟨insert_inv h hroom hc, rfl, fun i hi => ?_⟩
    rw [List.mem_singleton.1 hi]
    omega

/-! ### The terminal -/

namespace Terminal

/-- The line reads `text` up to the cursor, and is blank behind it. -/
structure Shows (t : Terminal) (text : List UInt8) : Prop where
  column : t.column ≤ t.line.length
  front : t.line.take t.column = text
  behind : ∀ b ∈ t.line.drop t.column, b = 32

variable {t : Terminal}

theorem puts_append (t : Terminal) (bytes bytes' : List UInt8) :
    t.puts (bytes ++ bytes') = (t.puts bytes).puts bytes' := List.foldl_append

theorem puts_newLine (t : Terminal) : t.puts (ascii "\r\n") = blank := by
  have hbytes : ascii "\r\n" = [13, 10] := by decide
  rw [hbytes]
  rfl

theorem shows_blank : blank.Shows [] := ⟨le_rfl, rfl, fun _ hb => absurd hb List.not_mem_nil⟩

theorem length_of_shows (h : t.Shows text) : t.column = text.length := by
  have hlen := congrArg List.length h.front
  rw [List.length_take] at hlen
  have := h.column
  omega

/-- A character that is neither a control of the cursor nor the end of a line. -/
theorem put_shows (h : t.Shows text) {c : UInt8} (h8 : c ≠ 8) (h13 : c ≠ 13) (h10 : c ≠ 10) :
    (t.put c).Shows (text ++ [c]) := by
  have hcolumn := h.column
  have hput : t.put c = ⟨t.line.take t.column ++ c :: t.line.drop (t.column + 1), t.column + 1⟩ := by
    unfold put
    rw [if_neg h8, if_neg h13, if_neg h10]
  have hfront : (t.line.take t.column ++ [c]).length = t.column + 1 := by
    rw [List.length_append, List.length_take, List.length_singleton]
    omega
  rw [hput, List.append_cons]
  refine ⟨?_, ?_, fun b hb => ?_⟩
  · dsimp only
    rw [List.length_append, hfront]
    omega
  · dsimp only
    rw [List.take_left' hfront, h.front]
  · dsimp only at hb
    rw [List.drop_left' hfront] at hb
    apply h.behind b
    rw [← List.drop_drop] at hb
    exact List.mem_of_mem_drop hb

/-- `"\b \b"` takes the last character away. -/
theorem erase_shows {c : UInt8} (h : t.Shows (text ++ [c])) : (t.puts [8, 32, 8]).Shows text := by
  have hcolumn := h.column
  have hlen := length_of_shows h
  rw [List.length_append, List.length_singleton] at hlen
  have herase : t.puts [8, 32, 8] =
      ⟨t.line.take (t.column - 1) ++ 32 :: t.line.drop (t.column - 1 + 1), t.column - 1⟩ := rfl
  have hfront : (t.line.take (t.column - 1)).length = t.column - 1 := by
    rw [List.length_take]
    omega
  rw [herase]
  refine ⟨?_, ?_, fun b hb => ?_⟩
  · dsimp only
    rw [List.length_append, hfront]
    omega
  · dsimp only
    rw [List.take_left' hfront]
    have htake := congrArg (List.take (t.column - 1)) h.front
    rw [List.take_take, List.take_left' (by omega)] at htake
    rwa [Nat.min_eq_left (by omega)] at htake
  · dsimp only at hb
    rw [List.drop_left' hfront, List.mem_cons, show t.column - 1 + 1 = t.column by omega] at hb
    rcases hb with rfl | hb
    · rfl
    · exact h.behind b hb

/-- The prompt goes behind what is on the line. -/
theorem prompt_shows (h : t.Shows text) : (t.puts (ascii "> ")).Shows (text ++ ascii "> ") := by
  have hbytes : ascii "> " = [62, 32] := by decide
  have hfirst := put_shows h (c := 62) (by decide) (by decide) (by decide)
  have hsecond := put_shows hfirst (c := 32) (by decide) (by decide) (by decide)
  rw [hbytes]
  rw [List.append_assoc] at hsecond
  exact hsecond

end Terminal

/-! ### A session -/

/-- A carriage return, a backspace, the end of the input, or a printable character. -/
def Key.Plain : Key → Prop
  | .eof => True
  | .char c => c = 13 ∨ c = 8 ∨ (32 ≤ c ∧ c ≤ 126)

/-- What the last run printed. -/
def lastAnswer (answers : ℕ → List UInt8) (runs : ℕ) : List UInt8 :=
  if runs = 0 then [] else answers (runs - 1)

variable {answers : ℕ → List UInt8} {keys : List Key} {s : Session}

theorem after_append (answers : ℕ → List UInt8) (keys : List Key) (key : Key) :
    Session.after answers (keys ++ [key]) = (Session.after answers keys).step answers key := by
  rw [Session.after, List.foldl_append]
  rfl

/-- The buffer holds the text typed since the last return. -/
theorem after_inv (answers : ℕ → List UInt8) (hkeys : Key.char 0 ∉ keys) :
    EditorInv (Session.after answers keys).editor (typed keys) := by
  induction keys using List.reverseRecOn with
  | nil => exact ⟨rfl, Nat.zero_le _, fun i hi => absurd hi (Nat.not_lt_zero i), List.not_mem_nil⟩
  | append_singleton keys key ih =>
    rw [List.mem_append, not_or, List.mem_singleton] at hkeys
    have hinv := ih hkeys.1
    rw [after_append]
    by_cases hreturn : key = .char 13
    · rw [hreturn, typed_return]
      exact (submit_inv hinv (answers (Session.after answers keys).runs)).2.1
    · rw [typed_append keys hreturn]
      exact (turn_inv hinv _ hreturn (fun h => hkeys.2 h.symm)).1

/-- The terminal shows the text behind the prompt, and the prompt behind what the last run
left of a line. -/
def ScreenInv (answers : ℕ → List UInt8) (text : List UInt8) (s : Session) : Prop :=
  ∀ before, (Terminal.blank.puts (lastAnswer answers s.runs)).Shows before →
    s.terminal.Shows (before ++ ascii "> " ++ text)

/-- **A key that is echoed** changes the line as it changes the text. -/
theorem step_shows (hinv : EditorInv s.editor text) (h : ScreenInv answers text s) {key : Key}
    (hplain : key.Plain) (hreturn : key ≠ .char 13) (heof : key ≠ .eof) :
    ScreenInv answers (edit text key) (s.step answers key) := by
  have hedited := edited_turn hinv (answers s.runs) hreturn
  have hterminal : (s.step answers key).terminal =
      s.terminal.puts (s.editor.turn (answers s.runs) key).printed := rfl
  have hruns : (s.step answers key).runs =
      s.runs + if (s.editor.turn (answers s.runs) key).handed.isSome then 1 else 0 := rfl
  intro before hbefore
  rw [hruns] at hbefore
  rw [hterminal]
  generalize s.editor.turn (answers s.runs) key = t, edit text key = text' at hedited hbefore ⊢
  cases hedited with
  | eof => exact absurd rfl heof
  | ignored => exact h before hbefore
  | erased hne =>
    have hshows := h before hbefore
    rw [← List.dropLast_append_getLast hne, ← List.append_assoc] at hshows
    exact Terminal.erase_shows hshows
  | @inserted c hc8 hc13 hroom =>
    have hprintable : 32 ≤ c ∧ c ≤ 126 := (hplain.resolve_left hc13).resolve_left hc8
    have hc10 : c ≠ 10 := by
      rintro rfl
      exact absurd hprintable.1 (by decide)
    rw [← List.append_assoc]
    exact Terminal.put_shows (h before hbefore) hc8 hc13 hc10

/-- What a run prints starts on a line of its own, and the prompt goes behind it. -/
theorem terminal_return (answers : ℕ → List UInt8) (s : Session) :
    (s.step answers (.char 13)).terminal =
      (Terminal.blank.puts (answers s.runs)).puts (ascii "> ") := by
  rw [← Terminal.puts_newLine s.terminal, ← Terminal.puts_append, ← Terminal.puts_append]
  rfl

/-- **A return** starts a line that shows the prompt alone, behind what the run left. -/
theorem step_return_shows (answers : ℕ → List UInt8) (s : Session) :
    ScreenInv answers [] (s.step answers (.char 13)) := by
  intro before hbefore
  have hruns : lastAnswer answers (s.step answers (.char 13)).runs = answers s.runs := by
    have hstep : (s.step answers (.char 13)).runs = s.runs + 1 := rfl
    rw [hstep, lastAnswer, if_neg (Nat.succ_ne_zero _), Nat.add_sub_cancel]
  rw [hruns] at hbefore
  rw [terminal_return, List.append_nil]
  exact Terminal.prompt_shows hbefore

/-- The terminal follows the text as long as the end of the input is not reported. -/
theorem after_shows (answers : ℕ → List UInt8) (hkeys : Key.char 0 ∉ keys)
    (hplain : ∀ key ∈ keys, key.Plain) (heof : Key.eof ∉ sinceReturn keys) :
    ScreenInv answers (typed keys) (Session.after answers keys) := by
  induction keys using List.reverseRecOn with
  | nil =>
    intro before hbefore
    have hnone : typed [] = [] := rfl
    rw [hnone, List.append_nil]
    exact Terminal.prompt_shows hbefore
  | append_singleton keys key ih =>
    rw [List.mem_append, not_or, List.mem_singleton] at hkeys
    have hplain' : ∀ k ∈ keys, k.Plain := fun k hk => hplain k (List.mem_append_left _ hk)
    have hinv := after_inv answers hkeys.1
    rw [after_append]
    by_cases hreturn : key = .char 13
    · rw [hreturn, typed_return]
      exact step_return_shows answers _
    · rw [sinceReturn_append keys hreturn, List.mem_append, not_or, List.mem_singleton] at heof
      rw [typed_append keys hreturn]
      exact step_shows hinv (ih hkeys.1 hplain' heof.1) (hplain key (by simp)) hreturn
        (fun h => heof.2 h.symm)

/-- What a run prints leaves nothing on the line if it is empty or ends a line. -/
theorem lastAnswer_shows {runs : ℕ} (h : lastAnswer answers runs = [] ∨
    ∃ body, lastAnswer answers runs = body ++ ascii "\r\n") :
    (Terminal.blank.puts (lastAnswer answers runs)).Shows [] := by
  rcases h with h | ⟨body, h⟩
  · rw [h]
    exact Terminal.shows_blank
  · rw [h, Terminal.puts_append, Terminal.puts_newLine]
    exact Terminal.shows_blank

/-- Each answer is what a run of some line printed, after some lines before it, and no report
was cut off. -/
def Answered (answers : ℕ → List UInt8) : Prop :=
  ∀ n, ∃ info dev history line, StatusInfo.Fits info ∧ (∀ p ∈ history, p.info.Fits) ∧
    runPrints info dev (bufferAfter history) line = some (answers n)

/-- **The prompt starts its line**, whatever lines were run. -/
theorem shows_of_answered (hanswers : Answered answers) (hkeys : Key.char 0 ∉ keys)
    (hplain : ∀ key ∈ keys, key.Plain) (heof : Key.eof ∉ sinceReturn keys) :
    (Session.after answers keys).terminal.Shows (ascii "> " ++ typed keys) := by
  refine after_shows answers hkeys hplain heof [] (lastAnswer_shows ?_)
  unfold lastAnswer
  split
  · exact Or.inl rfl
  · obtain ⟨info, dev, history, line, hfits, hpast, hrun⟩ :=
      hanswers ((Session.after answers keys).runs - 1)
    exact runPrints_lines hpast hfits dev hrun

/-! ### A line that is not the prompt and the text -/

end Pcrb
