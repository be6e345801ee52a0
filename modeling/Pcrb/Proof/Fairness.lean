import Pcrb.Proof.Served

/-!
# What must happen

`Fair` is what is assumed of the scheduler, and of the wifi chip and the access point: `init_task`,
`wifi_management_task` and `switch_task` go on where they can, and a call that is tried again and
again succeeds at last. Nobody need type or connect. An execution never ends, so it is about a
device that no reset and no exception stops.

* `startup_completes`: the start-up comes to its end, with every task at work.
* `wifi_recovers`: when the link is lost, it is taken up again.
* `every_request_pressed`: every request that gets into the queue is pressed for, in order.
-/

namespace Pcrb

open Lts

variable {s s' : State} {es : List Event} {l : Label} {ok : Bool}

/-- A call of `wifi_management_task` at this point succeeds. -/
def Succeeds (pc : WifiPc) (s : State) (l : Label) : Prop := s.wifi = pc ∧ l = .wifi true

theorem own_of_succeeds {pc : WifiPc} (s : State) (l : Label) (h : Succeeds pc s l) :
    Own .wifi s l := by
  obtain ⟨-, rfl⟩ := h
  exact ⟨rfl, nofun⟩

/-- **Fairness**: the tasks that ask nothing of a user or a client step where they can, the chip
comes up if it is tried again and again, and so does the connection to the access point. -/
structure Fair (x : Execution firmware) : Prop where
  init : x.WeaklyFair (Own .init)
  wifi : x.WeaklyFair (Own .wifi)
  switch : x.WeaklyFair (Own .switch)
  archInit : x.StronglyFair (Succeeds .archInit)
  connect : x.StronglyFair (Succeeds .connect)

/-! ### `wifi_management_task` -/

/-- `wifi_initd` is still to be set. -/
def WifiPc.early : WifiPc → Bool
  | .linkStatus | .poll | .leave | .reconnect => false
  | _ => true

/-- The calls between the first attempts at the chip and at the access point. -/
def WifiPc.between : WifiPc → Bool
  | .enableSta | .pm | .setStatusCallback | .setLinkCallback | .connectFailed => true
  | _ => false

/-- How many steps they are away from an attempt to connect. -/
def WifiPc.distance : WifiPc → ℕ
  | .enableSta => 3
  | .pm => 2
  | .setStatusCallback => 1
  | _ => 0

theorem wifiStep_of_step (hcr : s.init.created .wifi = true)
    (hs : firmware.step s (.wifi ok) = some (s', es)) : wifiStep s ok = some (s', es) := by
  rwa [show firmware.step s (.wifi ok) = wifiStep s ok from if_pos hcr] at hs

theorem wifi_frame (hl : ∀ ok, l ≠ .wifi ok) (hs : firmware.step s l = some (s', es)) :
    s'.wifi = s.wifi ∧ s'.wifiInitd = s.wifiInitd := by
  cases taskStep_of_eq hs with
  | wifi _ => exact absurd rfl (hl _)
  | callback _ => exact ⟨rfl, rfl⟩
  | init h =>
    obtain ⟨pc, rfl⟩ := initStep_frame h
    exact ⟨rfl, rfl⟩
  | cli _ h => cases h <;> exact ⟨rfl, rfl⟩
  | switch _ h => cases h <;> exact ⟨rfl, rfl⟩
  | network _ h => cases h <;> exact ⟨rfl, rfl⟩
  | monitor _ h => cases h <;> exact ⟨rfl, rfl⟩

/-- The flag is set once, by the step that ends the first attempts. -/
theorem wifiInitd_step (hs : firmware.step s l = some (s', es)) :
    s'.wifiInitd = s.wifiInitd ∧ s'.wifi.early = s.wifi.early ∨
      s'.wifiInitd = true ∧ s'.wifi.early = false := by
  by_cases hl : ∀ ok, l ≠ .wifi ok
  · obtain ⟨hw, hi⟩ := wifi_frame hl hs
    rw [hw, hi]
    exact Or.inl ⟨rfl, rfl⟩
  · simp only [not_forall, not_not] at hl
    obtain ⟨ok, rfl⟩ := hl
    cases taskStep_of_eq hs with
    | wifi hstep =>
      unfold wifiStep at hstep
      cases hpc : s.wifi <;> cases ok <;>
        simp only [hpc, if_true, Bool.false_eq_true, if_false, Option.some.injEq,
          Prod.mk.injEq] at hstep <;>
        obtain ⟨rfl, -⟩ := hstep <;> simp [hpc, WifiPc.early]

theorem wifiInitd_kept (hs : firmware.step s l = some (s', es)) (h : s.wifiInitd = true) :
    s'.wifiInitd = true := by
  rcases wifiInitd_step hs with ⟨hi, -⟩ | ⟨hi, -⟩
  · rwa [hi]
  · exact hi

theorem wifiStep_between (hb : s.wifi.between = true) (hs : wifiStep s ok = some (s', es)) :
    s'.wifi = .connect ∨ s'.wifi.between = true ∧ s'.wifi.distance < s.wifi.distance := by
  unfold wifiStep at hs
  cases hpc : s.wifi <;> simp only [hpc, Option.some.injEq, Prod.mk.injEq] at hb hs <;>
    first
    | exact absurd hb (by decide)
    | obtain ⟨rfl, -⟩ := hs
      simp [WifiPc.between, WifiPc.distance]

section Execution

variable {x : Execution firmware} {n : ℕ}

/-- The flag says whether the first attempts are over. -/
theorem wifiInitd_iff (x : Execution firmware) (n : ℕ) :
    (x.state n).wifiInitd = true ↔ (x.state n).wifi.early = false := by
  refine x.always (C := fun _ _ => True)
    (P := fun s => s.wifiInitd = true ↔ s.wifi.early = false) ?_ (fun _ => trivial)
    (n := 0) ?_ n n.zero_le
  · intro s l s' es _ h hs
    rcases wifiInitd_step hs with ⟨hi, he⟩ | ⟨hi, he⟩
    · rwa [hi, he]
    · exact iff_of_true hi he
  · obtain ⟨after, h0⟩ := x.start
    rw [h0]
    exact iff_of_false Bool.false_ne_true Bool.false_ne_true.symm

theorem wifiInitd_mono {m : ℕ} (hnm : n ≤ m) (h : (x.state n).wifiInitd = true) :
    (x.state m).wifiInitd = true :=
  x.always (C := fun _ _ => True) (P := fun s => s.wifiInitd = true)
    (fun _ _ _ _ _ h hs => wifiInitd_kept hs h) (fun _ => trivial) h m hnm

theorem created_always {m : ℕ} {τ : Task} (hnm : n ≤ m)
    (h : (x.state n).init.created τ = true) : (x.state m).init.created τ = true :=
  x.always (C := fun _ _ => True) (P := fun s => s.init.created τ = true)
    (fun _ _ _ _ _ h hs => created_mono hs h) (fun _ => trivial) h m hnm

/-- What one step does in a part of `wifi_management_task` is enough for a rank there. -/
theorem wifi_ranking (A : State → Label → Prop) (P : WifiPc → Prop) (goal : State → Prop)
    (rank : WifiPc → ℕ) (hA : ∀ s l, A s l → Own .wifi s l)
    (hen : ∀ s, P s.wifi → A s (.wifi true))
    (hstep : ∀ s ok s' es, P s.wifi → wifiStep s ok = some (s', es) →
      goal s' ∨ P s'.wifi ∧ rank s'.wifi ≤ rank s.wifi ∧
        (A s (.wifi ok) → rank s'.wifi < rank s.wifi)) :
    Ranking firmware (fun _ _ => True) A (fun s => s.init.created .wifi = true ∧ P s.wifi)
      (fun tn => goal tn.dst) fun s => rank s.wifi where
  enabled s h := ⟨.wifi true, hen s h.2, wifi_enabled true h.1⟩
  step := by
    rintro s l s' es - ⟨hcr, hpc⟩ hs
    have hcr' := created_mono hs hcr
    by_cases hl : ∀ ok, l ≠ .wifi ok
    · have hw := (wifi_frame hl hs).1
      refine Or.inr ⟨⟨hcr', hw ▸ hpc⟩, by rw [hw], fun hown => ?_⟩
      obtain ⟨htask, hne⟩ := hA s l hown
      cases l with
      | wifi ok => exact absurd rfl (hl ok)
      | callback => exact absurd rfl hne
      | init | cli _ | switch | network _ | monitor _ => cases htask
    · simp only [not_forall, not_not] at hl
      obtain ⟨ok, rfl⟩ := hl
      exact (hstep s ok s' es hpc (wifiStep_of_step hcr hs)).imp id fun ⟨hp, hle, hlt⟩ =>
        ⟨⟨hcr', hp⟩, hle, hlt⟩

/-- A point that the task leaves towards the goal, sooner or later, leads there. -/
theorem point_leads {A : State → Label → Prop} {pc : WifiPc} (goal : State → Prop)
    (hfair : x.WeaklyFair A) (hcr : (x.state n).init.created .wifi = true)
    (hpc : (x.state n).wifi = pc) (hA : ∀ s l, A s l → Own .wifi s l)
    (hen : ∀ s, s.wifi = pc → A s (.wifi true))
    (hstep : ∀ s ok s' es, s.wifi = pc → wifiStep s ok = some (s', es) →
      goal s' ∨ s'.wifi = pc ∧ ¬ A s (.wifi ok)) :
    ∃ m, n ≤ m ∧ goal (x.state m) := by
  have hr := wifi_ranking A (· = pc) goal (fun _ => 0) hA hen fun s ok s' es h hs =>
    (hstep s ok s' es h hs).imp id fun h' => ⟨h'.1, le_rfl, fun hown => absurd hown h'.2⟩
  obtain ⟨m, hm, hgoal⟩ := hr.leads x hfair (fun _ => trivial) ⟨hcr, hpc⟩
  exact ⟨m + 1, by omega, hgoal⟩

/-- The chip comes up. -/
theorem archInit_leads (hx : Fair x) (hcr : (x.state n).init.created .wifi = true)
    (hpc : (x.state n).wifi = .archInit) : ∃ m, n ≤ m ∧ (x.state m).wifi = .enableSta := by
  refine point_leads (fun s => s.wifi = .enableSta) hx.archInit.weaklyFair hcr hpc
    own_of_succeeds (fun s h => ⟨h, rfl⟩) ?_
  intro s ok s' es hpc hs
  unfold wifiStep at hs
  rw [hpc] at hs
  obtain ⟨rfl, -⟩ := Prod.mk.inj (Option.some.inj hs)
  cases ok with
  | true => exact Or.inl rfl
  | false => exact Or.inr ⟨hpc, fun h => absurd h.2 (by simp)⟩

/-- What lies between the attempts is passed. -/
theorem between_leads (hx : Fair x) (hcr : (x.state n).init.created .wifi = true)
    (hpc : (x.state n).wifi.between = true) : ∃ m, n ≤ m ∧ (x.state m).wifi = .connect := by
  have hr := wifi_ranking (Own .wifi) (fun pc => pc.between = true) (fun s => s.wifi = .connect)
    WifiPc.distance (fun _ _ h => h) (fun _ _ => ⟨rfl, nofun⟩) fun s ok s' es hpc hs =>
      (wifiStep_between hpc hs).imp id fun ⟨hb, hlt⟩ => ⟨hb, hlt.le, fun _ => hlt⟩
  obtain ⟨m, hm, hgoal⟩ := hr.leads x hx.wifi (fun _ => trivial) ⟨hcr, hpc⟩
  exact ⟨m + 1, by omega, hgoal⟩

/-- With a connection, the flag is set. -/
theorem setInitd_leads (hx : Fair x) (hcr : (x.state n).init.created .wifi = true)
    (hpc : (x.state n).wifi = .setInitd) : ∃ m, n ≤ m ∧ (x.state m).wifiInitd = true := by
  refine point_leads (fun s => s.wifiInitd = true) hx.wifi hcr hpc (fun _ _ h => h)
    (fun _ _ => ⟨rfl, nofun⟩) ?_
  intro s ok s' es hpc hs
  unfold wifiStep at hs
  rw [hpc] at hs
  obtain ⟨rfl, -⟩ := Prod.mk.inj (Option.some.inj hs)
  exact Or.inl rfl

/-- **The retries.** The chip comes up, a connection follows, and `wifi_initd` is set. -/
theorem connect_leads (hx : Fair x) (hcr : (x.state n).init.created .wifi = true) :
    ∃ m, n ≤ m ∧ (x.state m).wifiInitd = true := by
  by_contra hnone
  have hearly : ∀ m, n ≤ m → (x.state m).wifi.early = true := fun m hm =>
    Bool.eq_true_of_not_eq_false fun h => hnone ⟨m, hm, (wifiInitd_iff x m).2 h⟩
  have hset : ∀ m, n ≤ m → (x.state m).wifi ≠ .setInitd := fun m hm hpc => by
    obtain ⟨k, hk, h⟩ := setInitd_leads hx (created_always hm hcr) hpc
    exact hnone ⟨k, by omega, h⟩
  -- without the flag the attempts go on for ever
  have htries : ∀ m, n ≤ m → ∃ k, m ≤ k ∧ (x.state k).wifi = .connect := by
    intro m hm
    have hcr' := created_always hm hcr
    cases hpc : (x.state m).wifi with
    | archInit =>
      obtain ⟨k, hk, hsta⟩ := archInit_leads hx hcr' hpc
      obtain ⟨j, hj, hgoal⟩ := between_leads hx (created_always hk hcr') (by rw [hsta]; rfl)
      exact ⟨j, by omega, hgoal⟩
    | enableSta | pm | setStatusCallback | setLinkCallback | connectFailed =>
      exact between_leads hx hcr' (by rw [hpc]; rfl)
    | connect => exact ⟨m, le_rfl, hpc⟩
    | setInitd => exact absurd hpc (hset m hm)
    | linkStatus | poll | leave | reconnect =>
      have h := hearly m hm
      rw [hpc] at h
      cases h
  -- so one of them succeeds
  obtain ⟨m, hm, hpc, hl⟩ := hx.connect n fun m hm => by
    obtain ⟨k, hk, hpc⟩ := htries m hm
    exact ⟨k, hk, .wifi true, ⟨hpc, rfl⟩, wifi_enabled true (created_always (hm.trans hk) hcr)⟩
  have hs := x.next m
  rw [hl] at hs
  have hstep := wifiStep_of_step (created_always hm hcr) hs
  unfold wifiStep at hstep
  rw [hpc] at hstep
  refine hset (m + 1) (by omega) ?_
  rw [← (Prod.mk.inj (Option.some.inj hstep)).1]
  rfl

/-! ### `init_task` -/

theorem init_frame (hl : ¬ Own .init s l) (hs : firmware.step s l = some (s', es)) :
    s'.init = s.init := by
  cases taskStep_of_eq hs with
  | init _ => exact absurd ⟨rfl, nofun⟩ hl
  | cli _ h => cases h <;> rfl
  | wifi h =>
    obtain ⟨_, _, _, _, rfl⟩ := wifiStep_frame h
    rfl
  | callback _ => rfl
  | switch _ h => cases h <;> rfl
  | network _ h => cases h <;> rfl
  | monitor _ h => cases h <;> rfl

theorem initStep_of_own (hl : Own .init s l) (hs : firmware.step s l = some (s', es)) :
    initStep s = some (s', es) := by
  cases taskStep_of_eq hs with
  | init h => exact h
  | callback _ => exact absurd rfl hl.2
  | cli _ _ | wifi _ | switch _ _ | network _ _ | monitor _ _ => cases hl.1

/-- How many steps `init_task` is away from its end. -/
def InitPc.distance : InitPc → ℕ
  | .createCli => 7
  | .createWifi => 6
  | .wait => 5
  | .logIp => 4
  | .createSwitch => 3
  | .createNetwork => 2
  | .createMonitor => 1
  | .deleted => 0

/-- A step of `init_task` comes closer to its end, unless it waits for `wifi_initd`. -/
theorem initStep_distance (hs : initStep s = some (s', es))
    (h : s.wifiInitd = true ∨ s.init.created .wifi = false) :
    s'.init.distance < s.init.distance := by
  unfold initStep at hs
  cases hpc : s.init <;>
    simp only [hpc, Option.some.injEq, Prod.mk.injEq, reduceCtorEq] at hs <;>
    obtain ⟨rfl, -⟩ := hs
  case wait =>
    have hset : s.wifiInitd = true := h.resolve_right (by rw [hpc]; decide)
    simp [hset, InitPc.distance]
  all_goals simp [InitPc.distance]

/-- What holds of `init_task` short of a point it gets to is enough, if it need not wait there. -/
theorem init_ranking (P goal : State → Prop)
    (hpc : ∀ s, P s → s.init ≠ .deleted ∧ (s.wifiInitd = true ∨ s.init.created .wifi = false))
    (hstep : ∀ s l s' es, P s → firmware.step s l = some (s', es) → goal s' ∨ P s') :
    Ranking firmware (fun _ _ => True) (Own .init) P (fun tn => goal tn.dst)
      fun s => s.init.distance where
  enabled s h := init_enabled.2 (hpc s h).1
  step := by
    rintro s l s' es - h hs
    refine (hstep s l s' es h hs).imp id fun h' => ⟨h', ?_⟩
    by_cases hl : Own .init s l
    · have hlt := initStep_distance (initStep_of_own hl hs) (hpc s h).2
      exact ⟨hlt.le, fun _ => hlt⟩
    · rw [init_frame hl hs]
      exact ⟨le_rfl, fun h => absurd h hl⟩

/-- `wifi_management_task` is created, whatever else happens. -/
theorem created_leads (hx : Fair x) (n : ℕ) :
    ∃ m, n ≤ m ∧ (x.state m).init.created .wifi = true := by
  by_cases hcr : (x.state n).init.created .wifi = true
  · exact ⟨n, le_rfl, hcr⟩
  · have hr := init_ranking (fun s => s.init.created .wifi = false)
      (fun s => s.init.created .wifi = true)
      (fun s h => ⟨fun hpc => absurd h (by rw [hpc]; decide), Or.inr h⟩)
      fun _ _ s' _ _ _ => (Bool.eq_false_or_eq_true (s'.init.created .wifi))
    obtain ⟨m, hm, hgoal⟩ := hr.leads x hx.init (fun _ => trivial)
      (Bool.eq_false_iff.2 hcr)
    exact ⟨m + 1, by omega, hgoal⟩

/-- `init_task` comes to its end, with the wifi initialised. -/
theorem init_ends (hx : Fair x) :
    ∃ n, (x.state n).init = .deleted ∧ (x.state n).wifiInitd = true := by
  obtain ⟨a, -, hcr⟩ := created_leads hx 0
  obtain ⟨b, -, hset⟩ := connect_leads hx hcr
  by_cases hpc : (x.state b).init = .deleted
  · exact ⟨b, hpc, hset⟩
  · have hr := init_ranking (fun s => s.wifiInitd = true ∧ s.init ≠ .deleted)
      (fun s => s.init = .deleted) (fun s h => ⟨h.2, Or.inl h.1⟩)
      fun s l s' es h hs => (em (s'.init = .deleted)).imp id fun h' =>
        ⟨wifiInitd_kept hs h.1, h'⟩
    obtain ⟨m, hm, hgoal⟩ := hr.leads x hx.init (fun _ => trivial) ⟨hset, hpc⟩
    exact ⟨m + 1, hgoal, wifiInitd_mono (by omega) hset⟩

theorem created_deleted {m : ℕ} (hnm : n ≤ m) (hpc : (x.state n).init = .deleted) (τ : Task) :
    (x.state m).init.created τ = true := by
  refine created_always hnm ?_
  rw [hpc]
  cases τ <;> rfl

/-- **The start-up comes to its end**: from some time on every task has been created, and the
wifi is initialised. -/
theorem startup_completes (hx : Fair x) :
    ∃ n, ∀ m, n ≤ m → (∀ τ, (x.state m).init.created τ = true) ∧ (x.state m).wifiInitd = true := by
  obtain ⟨n, hpc, hset⟩ := init_ends hx
  exact ⟨n, fun m hm => ⟨created_deleted hm hpc, wifiInitd_mono hm hset⟩⟩

/-! ### The link -/

/-- The access point is tried until it is there. -/
theorem reconnect_leads (hre : x.StronglyFair (Succeeds .reconnect))
    (hcr : (x.state n).init.created .wifi = true) (hpc : (x.state n).wifi = .reconnect) :
    ∃ m, n ≤ m ∧ (x.state m).wifi = .poll := by
  refine point_leads (fun s => s.wifi = .poll) hre.weaklyFair hcr hpc own_of_succeeds
    (fun s h => ⟨h, rfl⟩) ?_
  intro s ok s' es hpc hs
  unfold wifiStep at hs
  rw [hpc] at hs
  obtain ⟨rfl, -⟩ := Prod.mk.inj (Option.some.inj hs)
  cases ok with
  | true => exact Or.inl rfl
  | false => exact Or.inr ⟨rfl, fun h => absurd h.2 (by simp)⟩

/-- **The link is taken up again**: if the access point answers at last when it is tried again and
again, `wifi_management_task` is back at its polling, whatever becomes of the link. -/
theorem wifi_recovers (hx : Fair x) (hre : x.StronglyFair (Succeeds .reconnect)) (n : ℕ) :
    ∃ m, n ≤ m ∧ (x.state m).wifi = .poll := by
  obtain ⟨a, hdel, hset⟩ := init_ends hx
  obtain ⟨k, hnk, hak⟩ : ∃ k, n ≤ k ∧ a ≤ k := ⟨max n a, le_max_left .., le_max_right ..⟩
  have hcr := created_deleted hak hdel .wifi
  have hlate := (wifiInitd_iff x k).1 (wifiInitd_mono hak hset)
  suffices h : ∃ m, k ≤ m ∧ (x.state m).wifi = .poll by
    obtain ⟨m, hm, hpoll⟩ := h
    exact ⟨m, hnk.trans hm, hpoll⟩
  cases hpc : (x.state k).wifi with
  | poll => exact ⟨k, le_rfl, hpc⟩
  | reconnect => exact reconnect_leads hre hcr hpc
  | linkStatus =>
    refine point_leads (fun s => s.wifi = .poll) hx.wifi hcr hpc
      (fun _ _ h => h) (fun _ _ => ⟨rfl, nofun⟩) ?_
    intro s ok s' es hpc hs
    unfold wifiStep at hs
    rw [hpc] at hs
    obtain ⟨rfl, -⟩ := Prod.mk.inj (Option.some.inj hs)
    exact Or.inl rfl
  | leave =>
    obtain ⟨j, hj, hre'⟩ : ∃ j, k ≤ j ∧ (x.state j).wifi = .reconnect := by
      refine point_leads (fun s => s.wifi = .reconnect) hx.wifi hcr hpc
        (fun _ _ h => h) (fun _ _ => ⟨rfl, nofun⟩) ?_
      intro s ok s' es hpc hs
      unfold wifiStep at hs
      rw [hpc] at hs
      obtain ⟨rfl, -⟩ := Prod.mk.inj (Option.some.inj hs)
      exact Or.inl rfl
    obtain ⟨m, hm, hpoll⟩ := reconnect_leads hre (created_always hj hcr) hre'
    exact ⟨m, hj.trans hm, hpoll⟩
  | archInit | enableSta | pm | setStatusCallback | setLinkCallback | connect | connectFailed
  | setInitd =>
    rw [hpc] at hlate
    cases hlate

/-! ### The requests -/

/-- What has been taken has been pressed for, or is pending. -/
theorem taken_run {s₀ : State} {tr : List (Transition State Label Event)} (h0 : firmware.init s₀)
    (hrun : firmware.Run s₀ tr s) (hat : ∀ tn ∈ tr, GetAtomic tn.src tn.label) :
    (trace Event.button tr).filterMap ButtonEvent.taken =
      (trace Event.button tr).filterMap ButtonEvent.pressed ++ s.pending.items := by
  obtain ⟨a₀, tr', a, ha, hrun', -, htrace, -, rfl⟩ := firmware_simulates.reach h0 hrun hat
  have hsplit := (button_run ha hrun').1
  simp only [trace, List.filterMap_some] at htrace
  rwa [htrace] at hsplit

theorem pressed_of_presses {tn : Transition State Label Event} (h : Presses tn) :
    (tn.events.filterMap Event.button).filterMap ButtonEvent.pressed ≠ [] := by
  obtain ⟨t, ht⟩ := List.exists_mem_of_ne_nil _ h
  obtain ⟨e, he, heq⟩ := List.mem_filterMap.1 ht
  refine List.ne_nil_of_mem (a := t) (List.mem_filterMap.2 ⟨.press t, ?_, rfl⟩)
  cases e with
  | pulse u =>
    obtain rfl : u = t := Option.some.inj heq
    exact List.mem_filterMap.2 ⟨_, he, rfl⟩
  | _ => cases heq

/-- There are ever more presses, up to the number of requests taken. -/
theorem presses_grow (hx : Fair x) (hat : ∀ n, GetAtomic (x.state n) (x.label n)) (n k : ℕ)
    (hk : k ≤ ((trace Event.button (x.upTo n)).filterMap ButtonEvent.taken).length) :
    ∃ m, n ≤ m ∧ k ≤ ((trace Event.button (x.upTo m)).filterMap ButtonEvent.pressed).length := by
  have hatU : ∀ m, ∀ tn ∈ x.upTo m, GetAtomic tn.src tn.label := by
    intro m tn htn
    obtain ⟨i, -, rfl⟩ := x.mem_upTo.1 htn
    exact hat i
  obtain ⟨a, hdel, -⟩ := init_ends hx
  induction k with
  | zero => exact ⟨n, le_rfl, Nat.zero_le _⟩
  | succ k ih =>
    obtain ⟨m, hm, hle⟩ := ih (by omega)
    obtain ⟨c, hmc, hac⟩ : ∃ c, m ≤ c ∧ a ≤ c := ⟨max m a, le_max_left .., le_max_right ..⟩
    have hlec := hle.trans (x.trace_prefix Event.button hmc |>.filterMap _).length_le
    by_cases hlt : k < ((trace Event.button (x.upTo c)).filterMap ButtonEvent.pressed).length
    · exact ⟨c, by omega, hlt⟩
    -- otherwise something is pending, and a press follows
    have htaken := (x.trace_prefix Event.button (hm.trans hmc) |>.filterMap
      ButtonEvent.taken).length_le
    have hsplit := congrArg List.length (taken_run x.start (x.run c) (hatU c))
    rw [List.length_append] at hsplit
    have howe : Owing (x.state c) :=
      ⟨buttonInv_run x.start (x.run c) (hatU c), queuesUp_run x.start (x.run c),
        created_deleted hac hdel .switch,
        fun hnil => by rw [hnil, List.length_nil] at hsplit; omega⟩
    obtain ⟨j, hj, hpress⟩ := switch_ranking.leads x hx.switch hat howe
    have hpos := List.length_pos_iff.2 (pressed_of_presses hpress)
    have hlej := hlec.trans (x.trace_prefix Event.button hj |>.filterMap _).length_le
    refine ⟨j + 1, by omega, ?_⟩
    rw [x.upTo_succ, trace_append, List.filterMap_append, List.length_append, trace_cons, trace_nil,
      List.append_nil]
    exact Nat.add_le_add hlej hpos

/-- **Every request that is taken is pressed for**, in order, in a fair execution with one queue. -/
theorem every_request_pressed (hx : Fair x) (hat : ∀ n, GetAtomic (x.state n) (x.label n)) (n : ℕ) :
    ∃ m, n ≤ m ∧ (trace Event.button (x.upTo n)).filterMap ButtonEvent.taken <+:
      (trace Event.button (x.upTo m)).filterMap ButtonEvent.pressed := by
  obtain ⟨m, hm, hle⟩ := presses_grow hx hat n _ le_rfl
  refine ⟨m, hm, ?_⟩
  have hatU : ∀ tn ∈ x.upTo m, GetAtomic tn.src tn.label := by
    intro tn htn
    obtain ⟨i, -, rfl⟩ := x.mem_upTo.1 htn
    exact hat i
  have htaken := (x.trace_prefix Event.button hm).filterMap ButtonEvent.taken
  have hpressed : (trace Event.button (x.upTo m)).filterMap ButtonEvent.pressed <+:
      (trace Event.button (x.upTo m)).filterMap ButtonEvent.taken := by
    rw [taken_run x.start (x.run m) hatU]
    exact List.prefix_append _ _
  exact List.prefix_of_prefix_length_le htaken hpressed hle

end Execution

/-! ### A fair execution -/

/-- The tasks in turn. -/
def whose (n : ℕ) : Task :=
  match n % 6 with
  | 0 => .init
  | 1 => .cli
  | 2 => .wifi
  | 3 => .switch
  | 4 => .network
  | _ => .monitor

/-- The wifi works, but for a while after the start-up. -/
def linkUp (n : ℕ) : Bool := decide (n < 150 ∨ 160 ≤ n)

/-- What a task is answered: the wifi comes up, is lost and comes back, nobody connects, and the
line typed is a toggle as soon as there is a queue. -/
def turn (n : ℕ) (s : State) : Task → Label
  | .init => .init
  | .cli => .cli (if s.comms.initialized then ascii "toggle 5" else [])
  | .wifi => .wifi (linkUp n)
  | .switch => .switch
  | .network => .network s.network.input
  | .monitor => .monitor false

/-- A round of the tasks; in place of one that waits steps `init_task` or, once that is at its
end, `wifi_management_task`. -/
def roundRobin (n : ℕ) (s : State) : Label :=
  if (firmware.step s (turn n s (whose n))).isSome then turn n s (whose n)
  else if s.init = .deleted then .wifi (linkUp n)
  else .init

theorem exists_whose (n : ℕ) (τ : Task) : ∃ m, n ≤ m ∧ whose m = τ := by
  have hwhose : ∀ i < 6, whose (6 * n + i) = whose i := fun i hi => by
    unfold whose
    rw [Nat.mul_add_mod, Nat.mod_eq_of_lt hi]
  cases τ with
  | init => exact ⟨6 * n + 0, by omega, hwhose 0 (by omega)⟩
  | cli => exact ⟨6 * n + 1, by omega, hwhose 1 (by omega)⟩
  | wifi => exact ⟨6 * n + 2, by omega, hwhose 2 (by omega)⟩
  | switch => exact ⟨6 * n + 3, by omega, hwhose 3 (by omega)⟩
  | network => exact ⟨6 * n + 4, by omega, hwhose 4 (by omega)⟩
  | monitor => exact ⟨6 * n + 5, by omega, hwhose 5 (by omega)⟩

theorem own_turn (n : ℕ) (s : State) (τ : Task) : Own τ s (turn n s τ) := by
  cases τ <;> exact ⟨rfl, nofun⟩

theorem roundRobin_enabled (n : ℕ) (s : State) :
    (firmware.step s (roundRobin n s)).isSome = true := by
  unfold roundRobin
  split_ifs with h hpc
  · exact h
  · exact wifi_enabled _ (by rw [hpc]; rfl)
  · change (initStep s).isSome = true
    cases hpc' : s.init with
    | deleted => exact absurd hpc' hpc
    | _ => simp [initStep, hpc']

/-- What `wifi_management_task` is answered does not depend on the state. -/
theorem roundRobin_wifi {n : ℕ} (h : roundRobin n s = .wifi ok) : ok = linkUp n := by
  unfold roundRobin at h
  split_ifs at h
  · cases hw : whose n <;> rw [hw] at h <;> cases h
    rfl
  · exact (Label.wifi.inj h).symm

theorem roundRobin_cli {n : ℕ} {line : List UInt8} (h : roundRobin n s = .cli line)
    (hi : s.comms.initialized = false) : line = [] := by
  unfold roundRobin at h
  split_ifs at h
  cases hw : whose n <;> rw [hw] at h <;> cases h
  rw [hi]
  rfl

theorem roundRobin_network {n : ℕ} {input : NetworkInput} (h : roundRobin n s = .network input) :
    input = s.network.input := by
  unfold roundRobin at h
  split_ifs at h
  cases hw : whose n <;> rw [hw] at h <;> cases h
  rfl

/-- Whether `cli_task` can step does not depend on the line. -/
theorem cliStep_isSome (line line' : List UInt8) :
    (cliStep s line).isSome = (cliStep s line').isSome := by
  cases hpc : s.cli with
  | prompt => simp [cliStep, hpc]
  | run todo => cases todo <;> simp [cliStep, hpc]
  | get pc time todo => simp [cliStep, hpc]
  | send handle time todo => cases handle <;> simp [cliStep, hpc]

/-- A task that can step steps when it is its turn. -/
theorem turn_enabled {n : ℕ} {τ : Task} (hup : QueuesUp s) (h : firmware.Enabled (Own τ) s) :
    (firmware.step s (turn n s τ)).isSome = true := by
  have hcr := created_of_enabled h
  obtain ⟨l, ⟨htask, hne⟩, hl⟩ := h
  cases τ with
  | init | switch =>
    cases l <;> first
      | exact hl
      | cases htask
  | cli =>
    cases l <;> try cases htask
    rename_i line
    rw [show firmware.step s (.cli line) = cliStep s line from if_pos hcr] at hl
    rw [turn, show firmware.step s (.cli _) = cliStep s _ from if_pos hcr, cliStep_isSome _ line]
    exact hl
  | wifi => exact wifi_enabled _ hcr
  | network => exact network_enabled hup hcr
  | monitor => exact monitor_enabled false hcr

/-- The firmware under that policy. -/
def inTurn : Execution firmware :=
  .ofPick roundRobin (State.boot (blockData fun _ => 0)) ⟨_, rfl⟩ fun _ => roundRobin_enabled _ _

theorem inTurn_label (n : ℕ) : inTurn.label n = roundRobin n (inTurn.state n) := rfl

/-- In its turn a task steps, if it can. -/
theorem inTurn_takes {n : ℕ} {τ : Task} (hτ : whose n = τ)
    (h : firmware.Enabled (Own τ) (inTurn.state n)) :
    inTurn.label n = turn n (inTurn.state n) τ := by
  have hup := queuesUp_run inTurn.start (inTurn.run n)
  rw [inTurn_label, roundRobin, hτ, if_pos (turn_enabled hup h)]

/-- A call of `wifi_management_task` that is come to again and again is made when the wifi works
for good, and succeeds. -/
theorem inTurn_succeeds (pc : WifiPc) : inTurn.StronglyFair (Succeeds pc) := by
  intro n hn
  have hup : ∀ m, 160 ≤ m → linkUp m = true := fun m hm => decide_eq_true (Or.inr hm)
  obtain ⟨k, hk, l, ⟨hpc, rfl⟩, hl⟩ := hn (max n 160) (le_max_left ..)
  have hnk : n ≤ k := (le_max_left ..).trans hk
  have hlate : 160 ≤ k := (le_max_right ..).trans hk
  have hcr : (inTurn.state k).init.created .wifi = true :=
    created_of_enabled ⟨.wifi true, ⟨rfl, nofun⟩, hl⟩
  by_contra hnone
  -- nothing else moves the task on
  have hstay : ∀ m, k ≤ m → (inTurn.state m).wifi = pc := by
    intro m hm
    induction hm with
    | refl => exact hpc
    | @step m hm ih =>
      refine (wifi_frame (fun ok hl => ?_) (inTurn.next m)).1.trans ih
      have hok := roundRobin_wifi ((inTurn_label m).symm.trans hl)
      rw [hup m (hlate.trans hm)] at hok
      rw [hok] at hl
      exact hnone ⟨m, hnk.trans hm, ih, hl⟩
  obtain ⟨m, hm, hwhose⟩ := exists_whose k .wifi
  have hcr' := created_always hm hcr
  have hlabel := inTurn_takes hwhose ⟨.wifi true, ⟨rfl, nofun⟩, wifi_enabled true hcr'⟩
  rw [turn, hup m (hlate.trans hm)] at hlabel
  exact hnone ⟨m, hnk.trans hm, hstay m hm, hlabel⟩

theorem inTurn_weaklyFair (τ : Task) : inTurn.WeaklyFair (Own τ) := by
  intro n hn
  obtain ⟨m, hm, hwhose⟩ := exists_whose n τ
  refine ⟨m, hm, ?_⟩
  rw [Execution.Takes, inTurn_takes hwhose (hn m hm)]
  exact own_turn m _ τ

theorem inTurn_fair : Fair inTurn where
  init := inTurn_weaklyFair .init
  wifi := inTurn_weaklyFair .wifi
  switch := inTurn_weaklyFair .switch
  archInit := inTurn_succeeds .archInit
  connect := inTurn_succeeds .connect

/-- Before there is a queue, no front end asks for one. -/
def Unasked (s : State) : Prop :=
  s.comms.initialized = false →
    (s.cli = .prompt ∨ s.cli = .run []) ∧ (s.network = .listen ∨ s.network = .accept)

theorem unasked_step {n : ℕ} (h : Unasked s) (hl : l = roundRobin n s)
    (hs : firmware.step s l = some (s', es)) : Unasked s' := by
  intro hi'
  have hi : s.comms.initialized = false := by
    cases getEffect_of_step hs with
    | quiet _ hi _ _ _ _ => rwa [hi] at hi'
    | test _ hc | create _ hc | read _ hc => simpa [hc] using hi'
    | set _ hc => simp [hc] at hi'
  obtain ⟨hcli, hnet⟩ := h hi
  constructor
  · by_cases hown : Own .cli s l
    · obtain ⟨line, rfl⟩ : ∃ line, l = .cli line := by
        cases l <;> first
          | exact ⟨_, rfl⟩
          | exact absurd hown.1 (by simp [Label.task])
      -- the line is empty, and stands for no command
      obtain rfl := roundRobin_cli hl.symm hi
      have hcr : s.init.created .cli = true :=
        created_of_enabled ⟨_, hown, Option.isSome_iff_exists.2 ⟨_, hs⟩⟩
      rw [show firmware.step s (.cli []) = cliStep s [] from if_pos hcr] at hs
      rcases hcli with hpc | hpc
      · simp only [cliStep, hpc, Option.some.injEq, Prod.mk.injEq] at hs
        rw [← hs.1]
        exact Or.inr rfl
      · simp only [cliStep, hpc, Option.some.injEq, Prod.mk.injEq] at hs
        rw [← hs.1]
        exact Or.inl rfl
    · rwa [cli_frame hown hs]
  · by_cases hown : Own .network s l
    · obtain ⟨input, rfl⟩ : ∃ input, l = .network input := by
        cases l <;> first
          | exact ⟨_, rfl⟩
          | exact absurd hown.1 (by simp [Label.task])
      -- nobody connects
      obtain rfl := roundRobin_network hl.symm
      have hcr : s.init.created .network = true :=
        created_of_enabled ⟨_, hown, Option.isSome_iff_exists.2 ⟨_, hs⟩⟩
      rw [show firmware.step s (.network _) = networkStep s _ from if_pos hcr] at hs
      unfold networkStep at hs
      rcases hnet with hpc | hpc
      · simp only [hpc, NetworkPc.input, Option.some.injEq, Prod.mk.injEq] at hs
        rw [← hs.1]
        exact Or.inr rfl
      · simp only [hpc, NetworkPc.input, Option.some.injEq, Prod.mk.injEq] at hs
        rw [← hs.1]
        exact Or.inr hpc
    · rwa [network_frame hown hs]

theorem inTurn_unasked (n : ℕ) : Unasked (inTurn.state n) :=
  inTurn.always (C := fun s l => ∃ n, l = roundRobin n s)
    (fun _ _ _ _ ⟨_, hl⟩ h hs => unasked_step h hl hs) (fun n => ⟨n, inTurn_label n⟩)
    (n := 0) (fun _ => ⟨Or.inl rfl, Or.inl rfl⟩) n n.zero_le

theorem inTurn_getAtomic (n : ℕ) : GetAtomic (inTurn.state n) (inTurn.label n) := by
  intro htest hi σ hne hcr
  obtain ⟨hcli, hnet⟩ := inTurn_unasked n hi
  have hnone : ∀ τ, τ ≠ .switch → (inTurn.state n).getPc τ = none := by
    intro τ hτ
    cases τ with
    | switch => exact absurd rfl hτ
    | cli => rcases hcli with h | h <;> simp [State.getPc, h]
    | network => rcases hnet with h | h <;> simp [State.getPc, h]
    | init | wifi | monitor => rfl
  have hswitch : ∀ τ, (inTurn.state n).getPc τ ≠ none → τ = .switch := fun τ h => by
    by_contra hτ
    exact h (hnone τ hτ)
  refine hne ((hswitch σ ?_).trans (hswitch _ (by rw [htest]; simp)).symm)
  rcases hcr with h | h <;> rw [h] <;> simp

/-- Under the policy the firmware comes up. -/
theorem startup_completes_inTurn : ∃ n, ∀ m, n ≤ m →
    (∀ τ, (inTurn.state m).init.created τ = true) ∧ (inTurn.state m).wifiInitd = true :=
  startup_completes inTurn_fair

/-- Under the policy the link is lost at 150, an attempt to reconnect fails at 158, and later the
link is polled again. -/
theorem wifi_recovers_inTurn : (inTurn.state 150).wifi = .poll ∧ (inTurn.state 151).wifi = .leave ∧
    (inTurn.state 158).wifi = .reconnect ∧ inTurn.label 158 = .wifi false ∧
    ∃ m, 158 ≤ m ∧ (inTurn.state m).wifi = .poll := by
  have hlost : (inTurn.state 150).wifi = .poll ∧ (inTurn.state 151).wifi = .leave ∧
      (inTurn.state 158).wifi = .reconnect ∧ (inTurn.state 158).init.created .wifi = true := by
    decide +kernel
  obtain ⟨hpoll, hleave, hreconnect, hcr⟩ := hlost
  have hfails : inTurn.label 158 = .wifi false :=
    inTurn_takes rfl ⟨.wifi true, ⟨rfl, nofun⟩, wifi_enabled true hcr⟩
  exact ⟨hpoll, hleave, hreconnect, hfails,
    wifi_recovers inTurn_fair (inTurn_succeeds .reconnect) 158⟩

/-- Under the policy a line asks for a pulse of 5, and it is pressed for. -/
theorem every_request_pressed_inTurn : ∃ m,
    5 ∈ (trace Event.button (inTurn.upTo m)).filterMap ButtonEvent.pressed := by
  have htaken : 5 ∈ (trace Event.button (inTurn.upTo 150)).filterMap ButtonEvent.taken := by
    decide +kernel
  obtain ⟨m, -, hprefix⟩ := every_request_pressed inTurn_fair inTurn_getAtomic 150
  exact ⟨m, hprefix.subset htaken⟩

end Pcrb
