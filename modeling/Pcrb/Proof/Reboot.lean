import Pcrb.Spec.Reset

/-!
# Who can reboot the device

The driver keeps 0 both for interface 0 and for no interface, and stores the number of an
interface that it then does not open. Apart from these two, its number is that of the
latest open (`number_step`), and a reboot is asked for through it (`guarded_step_iff`).

* `reboot_guarded_iff`: exactly which sequences of callbacks keep reboots to the opened
  interface throughout.
-/

namespace Pcrb

open Lts System

/-- A callback as it was taken. -/
abbrev ResetTransition := Transition UInt32 ResetCallback ResetEvent

/-- The interface that is open after a callback, by what the callback returned. -/
def noteReturned (opened : Option UInt8) (t : ResetTransition) : Option UInt8 :=
  match t.label with
  | .reset => none
  | .openInterface itf _ => if .opened 0 ∈ t.events then opened else some itf.bInterfaceNumber
  | .controlXfer _ _ => opened

/-- The interface of the latest open that did not return 0, since the start or the latest
bus reset. -/
def lastOpened (tr : List ResetTransition) : Option UInt8 := tr.foldl noteReturned none

/-- The device is told to reboot. -/
def Reboots (t : ResetTransition) : Prop := .bootselReset ∈ t.events ∨ .flashReset ∈ t.events

/-- A callback, after others, reboots only on a request through the opened interface, and
leaves the driver alone if it is an open that fails. -/
structure RebootGuarded (pre : List ResetTransition) (t : ResetTransition) : Prop where
  reboot : Reboots t → ∃ request, t.label = .controlXfer controlStageSetup request ∧
    (request.bRequest = 1 ∨ request.bRequest = 2) ∧
    ∃ number, lastOpened pre = some number ∧ request.wIndex.toNat = number.toNat
  failed : ∀ itf maxLen, t.label = .openInterface itf maxLen → .opened 0 ∈ t.events → t.dst = t.src

/-- The interface that is open after a callback, by what the host sent. -/
def noteOpened (opened : Option UInt8) : ResetCallback → Option UInt8
  | .reset => none
  | .openInterface itf maxLen =>
    if itf.Matches ∧ drvLen ≤ maxLen then some itf.bInterfaceNumber else opened
  | .controlXfer _ _ => opened

/-- The interface of the latest open of a matching descriptor that is not cut short, since
the start or the latest bus reset. -/
def opened (callbacks : List ResetCallback) : Option UInt8 := callbacks.foldl noteOpened none

/-- A callback, after others, that does not come to the two flaws: a matching descriptor
that is cut short has the number of the opened interface, or 0 where none is, and no reboot
is asked of interface 0 while none is. -/
structure Harmless (pre : List ResetCallback) (callback : ResetCallback) : Prop where
  cutShort : ∀ itf maxLen, callback = .openInterface itf maxLen → itf.Matches →
    ¬ drvLen ≤ maxLen → itf.bInterfaceNumber = (opened pre).getD 0
  early : ∀ request, callback = .controlXfer controlStageSetup request →
    request.bRequest = 1 ∨ request.bRequest = 2 → request.wIndex = 0 → opened pre ≠ none

variable {number number' : UInt32} {callback : ResetCallback} {es : List ResetEvent}
  {tr pre : List ResetTransition} {callbacks : List ResetCallback}

/-! ### The callbacks -/

/-- Also an open that fails stores the number of a matching descriptor. -/
theorem resetOpen_number (number : UInt32) (itf : InterfaceDescriptor) (maxLen : UInt16) :
    (resetOpen number itf maxLen).1 =
      if itf.Matches then itf.bInterfaceNumber.toUInt32 else number := by
  unfold resetOpen
  by_cases hm : itf.Matches
  · rw [if_neg (not_not_intro hm), if_pos hm]
    split <;> rfl
  · rw [if_pos hm, if_neg hm]

theorem resetOpen_fails_iff (number : UInt32) (itf : InterfaceDescriptor) (maxLen : UInt16) :
    (resetOpen number itf maxLen).2 = 0 ↔ ¬ (itf.Matches ∧ drvLen ≤ maxLen) := by
  have hlength : drvLen ≠ 0 := by decide
  unfold resetOpen
  by_cases hm : itf.Matches
  · by_cases hlen : drvLen ≤ maxLen
    · simp [hm, hlen, hlength]
    · simp [hm, hlen]
  · simp [hm]

/-- **The requests that reboot.** -/
theorem resetControlXferCb_reboots_iff (number : UInt32) (stage : UInt8)
    (request : ControlRequest) :
    (.bootselReset ∈ resetControlXferCb number stage request ∨
        .flashReset ∈ resetControlXferCb number stage request) ↔
      stage = controlStageSetup ∧ request.wIndex.toUInt32 = number ∧
        (request.bRequest = 1 ∨ request.bRequest = 2) := by
  unfold resetControlXferCb resetRequestBootsel resetRequestFlash
  by_cases hs : stage = controlStageSetup
  · by_cases hi : request.wIndex.toUInt32 = number
    · by_cases h1 : request.bRequest = 1
      · simp [hs, hi, h1]
      · by_cases h2 : request.bRequest = 2
        · simp [hs, hi, h2]
        · simp [hs, hi, h1, h2]
    · simp [hs, hi]
  · simp [hs]

/-! ### One callback -/

/-- The driver's number tells the opened interface, and is 0 if there is none. -/
def Tells (number : UInt32) (opened : Option UInt8) : Prop := number = (opened.getD 0).toUInt32

/-- What an open returns tells whether its descriptor matches and is whole. -/
theorem noteReturned_eq (hstep : resetStep number callback = (number', es)) (now : Option UInt8) :
    noteReturned now ⟨number, callback, number', es⟩ = noteOpened now callback := by
  cases callback with
  | reset => rfl
  | openInterface itf maxLen =>
    obtain ⟨-, rfl⟩ := Prod.mk.inj hstep
    have hfails := resetOpen_fails_iff number itf maxLen
    simp only [noteReturned, noteOpened, List.mem_singleton, ResetEvent.opened.injEq]
    by_cases hopens : itf.Matches ∧ drvLen ≤ maxLen
    · have hne : ¬ 0 = (resetOpen number itf maxLen).2 := fun h => hfails.1 h.symm hopens
      rw [if_neg hne, if_pos hopens]
    · rw [if_pos (hfails.2 hopens).symm, if_neg hopens]
  | controlXfer stage request => rfl

/-- An open keeps the number apart from the latest open only where it is cut short. -/
theorem guarded_open_iff (itf : InterfaceDescriptor) (maxLen : UInt16)
    (htells : Tells number (opened callbacks)) :
    RebootGuarded pre ⟨number, .openInterface itf maxLen, (resetOpen number itf maxLen).1,
        [.opened (resetOpen number itf maxLen).2]⟩ ↔
      Harmless callbacks (.openInterface itf maxLen) := by
  have hnumber := resetOpen_number number itf maxLen
  have hfails := resetOpen_fails_iff number itf maxLen
  unfold Tells at htells
  constructor
  · intro h
    refine ⟨?_, by rintro _ ⟨⟩⟩
    rintro _ _ ⟨⟩ hm hlen
    have hzero : (resetOpen number itf maxLen).2 = 0 := hfails.2 fun hopens => hlen hopens.2
    have hsame : (resetOpen number itf maxLen).1 = number :=
      h.failed itf maxLen rfl (List.mem_singleton.2 (congrArg ResetEvent.opened hzero.symm))
    rw [hnumber, if_pos hm, htells] at hsame
    exact UInt8.toUInt32_inj.1 hsame
  · intro h
    constructor
    · rintro (hreset | hreset)
      · cases List.mem_singleton.1 hreset
      · cases List.mem_singleton.1 hreset
    · rintro _ _ ⟨⟩ hreturned
      have hzero := ResetEvent.opened.inj (List.mem_singleton.1 hreturned)
      dsimp only
      rw [hnumber]
      by_cases hm : itf.Matches
      · have hlen : ¬ drvLen ≤ maxLen := fun hle => hfails.1 hzero.symm ⟨hm, hle⟩
        rw [if_pos hm, h.cutShort itf maxLen rfl hm hlen, htells]
      · rw [if_neg hm]

/-- A request reboots through another than the opened interface only where none is. -/
theorem guarded_request_iff (stage : UInt8) (request : ControlRequest)
    (hlast : lastOpened pre = opened callbacks) (htells : Tells number (opened callbacks)) :
    RebootGuarded pre ⟨number, .controlXfer stage request, number,
        resetControlXferCb number stage request⟩ ↔
      Harmless callbacks (.controlXfer stage request) := by
  have hreboots := resetControlXferCb_reboots_iff number stage request
  unfold Tells at htells
  constructor
  · intro h
    refine ⟨by rintro _ _ ⟨⟩, ?_⟩
    rintro _ ⟨⟩ hrequest hindex hnone
    have hnumber : request.wIndex.toUInt32 = number := by
      rw [hindex, htells, hnone]
      rfl
    obtain ⟨_, -, -, number₁, hopened, -⟩ := h.reboot (hreboots.2 ⟨rfl, hnumber, hrequest⟩)
    rw [hlast, hnone] at hopened
    cases hopened
  · intro h
    refine ⟨?_, by rintro _ _ ⟨⟩⟩
    intro hreset
    obtain ⟨rfl, hindex, hrequest⟩ := hreboots.1 hreset
    refine ⟨request, rfl, hrequest, ?_⟩
    rw [hlast]
    rw [htells] at hindex
    cases hopened : opened callbacks with
    | none =>
      -- the number is 0, so interface 0 was asked for
      rw [hopened] at hindex
      have hzero : request.wIndex = 0 := UInt16.toUInt32_inj.1 hindex
      exact absurd hopened (h.early request rfl hrequest hzero)
    | some itf =>
      rw [hopened] at hindex
      have hvalue := congrArg UInt32.toNat hindex
      rw [UInt16.toNat_toUInt32, Option.getD_some, UInt8.toNat_toUInt32] at hvalue
      exact ⟨itf, rfl, hvalue⟩

/-- **A callback keeps reboots to the opened interface** exactly if it does not come to the
two flaws. -/
theorem guarded_step_iff (hstep : resetStep number callback = (number', es))
    (hlast : lastOpened pre = opened callbacks) (htells : Tells number (opened callbacks)) :
    RebootGuarded pre ⟨number, callback, number', es⟩ ↔ Harmless callbacks callback := by
  obtain ⟨rfl, rfl⟩ := Prod.mk.inj hstep
  cases callback with
  | reset =>
    constructor
    · intro _
      exact ⟨by rintro _ _ ⟨⟩, by rintro _ ⟨⟩⟩
    · intro _
      refine ⟨?_, by rintro _ _ ⟨⟩⟩
      rintro (hreset | hreset)
      · exact absurd hreset List.not_mem_nil
      · exact absurd hreset List.not_mem_nil
  | openInterface itf maxLen => exact guarded_open_iff itf maxLen htells
  | controlXfer stage request => exact guarded_request_iff stage request hlast htells

/-- The number goes on telling the opened interface. -/
theorem tells_step (hstep : resetStep number callback = (number', es))
    (htells : Tells number (opened callbacks)) (hharmless : Harmless callbacks callback) :
    Tells number' (noteOpened (opened callbacks) callback) := by
  obtain ⟨rfl, -⟩ := Prod.mk.inj hstep
  cases callback with
  | reset => rfl
  | openInterface itf maxLen =>
    unfold Tells at htells ⊢
    have hnumber := resetOpen_number number itf maxLen
    simp only [noteOpened, hnumber]
    by_cases hm : itf.Matches
    · rw [if_pos hm]
      by_cases hlen : drvLen ≤ maxLen
      · rw [if_pos ⟨hm, hlen⟩, Option.getD_some]
      · rw [if_neg fun hopens => hlen hopens.2, hharmless.cutShort itf maxLen rfl hm hlen]
    · rw [if_neg hm, if_neg fun hopens => hm hopens.1]
      exact htells
  | controlXfer stage request => exact htells

/-! ### Sequences of callbacks -/

theorem opened_concat (callbacks : List ResetCallback) (callback : ResetCallback) :
    opened (callbacks ++ [callback]) = noteOpened (opened callbacks) callback := by
  rw [opened, List.foldl_concat, opened]

theorem lastOpened_concat (tr : List ResetTransition) (t : ResetTransition) :
    lastOpened (tr ++ [t]) = noteReturned (lastOpened tr) t := by
  rw [lastOpened, List.foldl_concat, lastOpened]

/-- The run so far, as the next callback finds it. -/
theorem guarded_run (hrun : resetDriver.Run 0 tr number) :
    lastOpened tr = opened (tr.map Transition.label) ∧
      (Each RebootGuarded tr ↔ Each Harmless (tr.map Transition.label)) ∧
      (Each Harmless (tr.map Transition.label) →
        Tells number (opened (tr.map Transition.label))) := by
  induction hrun with
  | nil =>
    refine ⟨rfl, ?_, fun _ => rfl⟩
    rw [List.map_nil]
    exact iff_of_true each_nil each_nil
  | snoc _ hs ih =>
    have hstep := Option.some.inj hs
    obtain ⟨hlast, hiff, htells⟩ := ih
    rw [List.map_append, List.map_singleton, each_concat, each_concat, lastOpened_concat,
      opened_concat, hlast]
    refine ⟨noteReturned_eq hstep _, ?_, ?_⟩
    · rw [hiff]
      exact and_congr_right fun hharmless => guarded_step_iff hstep hlast (htells hharmless)
    · rintro ⟨hharmless, hnext⟩
      exact tells_step hstep (htells hharmless) hnext

/-- **Only the opened interface can reboot the device**, throughout a sequence of callbacks,
exactly if no callback of it comes to the two flaws. -/
theorem reboot_guarded_iff (hrun : resetDriver.Run 0 tr number) :
    Each RebootGuarded tr ↔ Each Harmless (tr.map Transition.label) :=
  (guarded_run hrun).2.1

/-- Interface 3 is opened, and asked for a reboot. -/
theorem reboot_guarded_opened :
    ∃ tr number, resetDriver.Run 0 tr number ∧ Each RebootGuarded tr ∧ ∃ t ∈ tr, Reboots t := by
  let callbacks : List ResetCallback :=
    [.openInterface ⟨3, 0xFF, 0, 1⟩ 9, .controlXfer 1 ⟨1, 0, 3⟩]
  have hrun : resetDriver.Run 0 _ _ :=
    (Run.nil.snoc (l := callbacks[0]) rfl).snoc (l := callbacks[1]) rfl
  refine ⟨_, _, hrun, (reboot_guarded_iff hrun).2 ?_, _, List.mem_concat_self, Or.inl (by decide)⟩
  have hopen : Harmless [] callbacks[0] := by
    refine ⟨?_, by rintro _ ⟨⟩⟩
    rintro _ _ ⟨⟩ _ hshort
    exact absurd (by decide) hshort
  have hrequest : Harmless [callbacks[0]] callbacks[1] := by
    refine ⟨by rintro _ _ ⟨⟩, ?_⟩
    rintro _ ⟨⟩ _ hindex
    exact absurd hindex (by decide)
  exact each_concat.2 ⟨each_concat.2 ⟨each_nil, hopen⟩, hrequest⟩

/-- A request reboots the device while no interface is open. -/
theorem reboot_without_open :
    ∃ tr number, resetDriver.Run 0 tr number ∧ ¬ Each RebootGuarded tr := by
  refine ⟨_, _, .snoc (l := .controlXfer 1 ⟨1, 0, 0⟩) .nil rfl, ?_⟩
  intro h
  obtain ⟨request, -, -, interface, hopened, -⟩ := (each_concat.1 h).2.reboot (Or.inl (by decide))
  cases hopened

end Pcrb
