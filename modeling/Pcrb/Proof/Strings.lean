import Pcrb.Spec.Descriptors

/-!
# String descriptors

The buffer is as long as the longest string needs (`length_lt_descMax`), so a request that
names a string is answered with its descriptor whatever was asked before it
(`served_of_ne`). The check in front of the table lets through one index more than the table
has (`past_table`).

* `wellServed_iff`: exactly which histories of requests are answered well throughout.
-/

namespace Pcrb

open Lts

/-- The string for an index: the serial number for 3, and the entry of the table otherwise. -/
def stringFor (id : BoardId) (index : UInt8) : Option (List UInt16) :=
  if index = 3 then some (picoId id) else stringDescArr[index.toNat]?

theorem descMax_pos : 0 < descMax := by decide

/-- The first code unit of a descriptor. -/
def header (descriptor : Buffer UInt16 descMax) : UInt16 := descriptor.get ⟨0, descMax_pos⟩

/-- The descriptor of a string: a length byte, a type byte, and the code units. -/
structure IsStringDescriptor (descriptor : Buffer UInt16 descMax) (str : List UInt16) : Prop where
  length : (header descriptor &&& 0xFF).toNat = 2 + 2 * str.length
  type : (header descriptor >>> 8).toNat = tusbDescString
  units : descriptor.read 1 str.length = str

/-- What a request is to be answered: null if the index names no entry of the table, and the
descriptor of the string otherwise. -/
structure Answers (id : BoardId) (index : UInt8) (reply : StringReply) : Prop where
  null : reply = none ↔ stringDescArr.length ≤ index.toNat
  descriptor : ∀ descriptor, reply = some descriptor →
    ∃ str, stringFor id index = some str ∧ IsStringDescriptor descriptor str

/-- Every request of a history comes back, with what it asked for. -/
def WellServed (id : BoardId) (requests : List StringRequest) : Prop :=
  ∃ tr s, (stringDescriptors id).exec Strings.initial requests = some (tr, s) ∧
    ∀ t ∈ tr, ∃ reply, t.events = [reply] ∧ Answers id t.label.index reply

variable {id : BoardId} {s : Strings} {index : UInt8} {str : List UInt16}

/-! ### The strings fit -/

theorem le_foldl_maxSize (container : List (List UInt16)) (m : ℕ) :
    let size := container.foldl (fun max elem => if max < elem.length then elem.length else max) m
    m ≤ size ∧ ∀ elem ∈ container, elem.length ≤ size := by
  induction container generalizing m with
  | nil => simp
  | cons first rest ih =>
    obtain ⟨hm, hall⟩ := ih (if m < first.length then first.length else m)
    have hkept : m ≤ if m < first.length then first.length else m := by split <;> omega
    have hfirst : first.length ≤ if m < first.length then first.length else m := by
      split <;> omega
    refine ⟨Nat.le_trans hkept hm, fun elem helem => ?_⟩
    rcases List.mem_cons.1 helem with rfl | helem
    · exact Nat.le_trans hfirst hm
    · exact hall elem helem

theorem le_maxSize {container : List (List UInt16)} (h : str ∈ container) :
    str.length ≤ maxSize container :=
  (le_foldl_maxSize container 0).2 str h

theorem length_flatMap_pair {α β : Type*} (f g : α → β) (l : List α) :
    (l.flatMap fun x => [f x, g x]).length = 2 * l.length := by
  induction l with
  | nil => rfl
  | cons x l ih =>
    rw [List.flatMap_cons, List.length_append, ih, List.length_cons]
    simp only [List.length_cons, List.length_nil]
    omega

@[simp] theorem length_picoId (id : BoardId) : (picoId id).length = 2 * 8 := by
  rw [picoId, length_flatMap_pair, Vector.length_toList]

/-- **Every string leaves room** for the first code unit. -/
theorem length_lt_descMax (h : stringFor id index = some str) : str.length < descMax := by
  unfold stringFor at h
  unfold descMax
  split at h
  · obtain rfl := Option.some.inj h
    rw [length_picoId]
    omega
  · have hle := le_maxSize (List.mem_of_getElem? h)
    omega

theorem descMax_le : descMax ≤ 127 := by decide

/-! ### One request -/

/-- The two bytes of the first code unit do not touch. -/
theorem header_bytes {n : ℕ} (h : n < 127) :
    (UInt16.ofNat (tusbDescString <<< 8 ||| (2 * n + 2)) &&& 0xFF).toNat = 2 + 2 * n ∧
      (UInt16.ofNat (tusbDescString <<< 8 ||| (2 * n + 2)) >>> 8).toNat = tusbDescString := by
  have hor : tusbDescString <<< 8 ||| (2 * n + 2) = 768 + (2 * n + 2) := by
    rw [← Nat.shiftLeft_add_eq_or_of_lt (by omega)]
    rfl
  have hmod : (768 + (2 * n + 2)) % 2 ^ 16 = 768 + (2 * n + 2) := Nat.mod_eq_of_lt (by omega)
  rw [hor]
  constructor
  · rw [UInt16.toNat_and, UInt16.toNat_ofNat', hmod]
    have hmask : (0xFF : UInt16).toNat = 2 ^ 8 - 1 := by decide
    rw [hmask, Nat.and_two_pow_sub_one_eq_mod]
    omega
  · rw [UInt16.toNat_shiftRight, UInt16.toNat_ofNat', hmod]
    have hshift : (8 : UInt16).toNat % 16 = 8 := by decide
    rw [hshift, Nat.shiftRight_eq_div_pow]
    unfold tusbDescString
    omega

theorem toNat_length (h : str.length < descMax) : (UInt8.ofNat str.length).toNat = str.length := by
  have hle := descMax_le
  rw [UInt8.toNat_ofNat']
  omega

/-- What `reply` returns, over a buffer that holds the string. -/
theorem reply_descriptor {descStr : Buffer UInt16 descMax} (saved : Option (List UInt16))
    (hlen : str.length < descMax) (hstore : s.descStr.store 1 str = some descStr) :
    ∃ descriptor,
      Strings.reply ⟨saved, descStr⟩ (UInt8.ofNat str.length) =
        (⟨saved, descriptor⟩, some descriptor) ∧ IsStringDescriptor descriptor str := by
  have hle := descMax_le
  refine ⟨_, rfl, ?_⟩
  obtain ⟨hlength, htype⟩ := header_bytes (n := str.length) (by omega)
  have hheader : header (descStr.set 0 (UInt16.ofNat (tusbDescString <<< 8 |||
      (2 * (UInt8.ofNat str.length).toNat + 2))) descMax_pos) =
      UInt16.ofNat (tusbDescString <<< 8 ||| (2 * str.length + 2)) := by
    rw [toNat_length hlen]
    exact Vector.getElem_set_self _
  constructor
  · exact (congrArg (fun u : UInt16 => (u &&& 0xFF).toNat) hheader).trans hlength
  · exact (congrArg (fun u : UInt16 => (u >>> 8).toNat) hheader).trans htype
  · rw [Buffer.read_set _ Nat.zero_lt_one]
    exact Buffer.read_store hstore

/-- The text of the board id is the same whenever it was made. -/
def SavedId (id : BoardId) (s : Strings) : Prop := s.get id = picoId id

theorem savedId_initial (id : BoardId) : SavedId id Strings.initial := rfl

/-- A request that names a string is answered with its descriptor. -/
theorem served_of_stringFor (langid : UInt16) (hsaved : SavedId id s)
    (h : stringFor id index = some str) :
    ∃ s' descriptor, s.tudDescriptorStringCb id index langid = some (s', some descriptor) ∧
      SavedId id s' ∧ IsStringDescriptor descriptor str := by
  have hlen := length_lt_descMax h
  obtain ⟨descStr, hstore⟩ : ∃ descStr, s.descStr.store 1 str = some descStr :=
    Buffer.exists_store s.descStr (by omega)
  unfold SavedId at hsaved
  by_cases h3 : index = 3
  · obtain ⟨descriptor, hreply, hd⟩ := reply_descriptor (some str) hlen hstore
    have hstr : s.get id = str := by
      rw [stringFor, if_pos h3] at h
      rw [hsaved, Option.some.inj h]
    refine ⟨⟨some str, descriptor⟩, descriptor, ?_, ?_, hd⟩
    · rw [Strings.tudDescriptorStringCb, if_pos h3, hstr, hstore, Option.map_some, hreply]
    · rw [SavedId, Strings.get, Option.getD_some, ← hstr, hsaved]
  · obtain ⟨descriptor, hreply, hd⟩ := reply_descriptor s.id hlen hstore
    rw [stringFor, if_neg h3] at h
    obtain ⟨hlt, -⟩ := List.getElem?_eq_some_iff.1 h
    refine ⟨⟨s.id, descriptor⟩, descriptor, ?_, ?_, hd⟩
    · rw [Strings.tudDescriptorStringCb, if_neg h3, if_neg (by omega), h, Option.bind_some]
      dsimp only
      rw [toNat_length hlen, List.take_length, hstore, Option.map_some, hreply]
    · exact hsaved

/-- **A request is answered well** unless it asks for the index behind the table. -/
theorem served_of_ne (langid : UInt16) (hsaved : SavedId id s)
    (hne : index.toNat ≠ stringDescArr.length) :
    ∃ s' reply, s.tudDescriptorStringCb id index langid = some (s', reply) ∧ SavedId id s' ∧
      Answers id index reply := by
  by_cases hlt : index.toNat < stringDescArr.length
  · obtain ⟨str, hstr⟩ : ∃ str, stringFor id index = some str := by
      unfold stringFor
      split
      · exact ⟨_, rfl⟩
      · exact ⟨_, List.getElem?_eq_getElem hlt⟩
    obtain ⟨s', descriptor, hcb, hsaved', hd⟩ := served_of_stringFor langid hsaved hstr
    refine ⟨s', some descriptor, hcb, hsaved', ⟨?_, ?_⟩⟩
    · constructor
      · intro hnone
        cases hnone
      · intro hle
        omega
    · rintro _ ⟨⟩
      exact ⟨str, hstr, hd⟩
  · have h3 : index ≠ 3 := by
      rintro rfl
      exact hlt (by decide)
    refine ⟨s, none, ?_, hsaved, ⟨?_, ?_⟩⟩
    · rw [Strings.tudDescriptorStringCb, if_neg h3, if_pos (by omega)]
    · exact ⟨fun _ => by omega, fun _ => rfl⟩
    · rintro _ ⟨⟩

/-- The index behind the table passes the check. -/
theorem past_table (langid : UInt16) (h : index.toNat = stringDescArr.length) :
    s.tudDescriptorStringCb id index langid = none := by
  have h3 : index ≠ 3 := by
    rintro rfl
    revert h
    decide
  rw [Strings.tudDescriptorStringCb, if_neg h3, if_neg (by omega),
    List.getElem?_eq_none (by omega), Option.bind_none]

/-! ### Histories of requests -/

theorem step_eq_some_iff {request : StringRequest} {s' : Strings} {es : List StringReply} :
    (stringDescriptors id).step s request = some (s', es) ↔
      ∃ reply, s.tudDescriptorStringCb id request.index request.langid = some (s', reply) ∧
        es = [reply] := by
  simp only [stringDescriptors, Option.map_eq_some_iff, Prod.exists, Prod.mk.injEq]
  constructor
  · rintro ⟨_, reply, hcb, rfl, rfl⟩
    exact ⟨reply, hcb, rfl⟩
  · rintro ⟨reply, hcb, rfl⟩
    exact ⟨s', reply, hcb, rfl, rfl⟩

/-- No request for the index behind the table comes back. -/
theorem ne_of_step {request : StringRequest} {s' : Strings} {es : List StringReply}
    (h : (stringDescriptors id).step s request = some (s', es)) :
    request.index.toNat ≠ stringDescArr.length := by
  intro heq
  obtain ⟨reply, hcb, -⟩ := step_eq_some_iff.1 h
  rw [past_table request.langid heq] at hcb
  cases hcb

/-- **The saved text stays the text of the board id**, whatever is asked for. -/
theorem savedId_of_exec {requests : List StringRequest}
    {tr : List (Transition Strings StringRequest StringReply)}
    (h : (stringDescriptors id).exec Strings.initial requests = some (tr, s)) : SavedId id s := by
  have hstep : ∀ s request s' es (_ : List StringReply), SavedId id s →
      (stringDescriptors id).step s request = some (s', es) → SavedId id s' := by
    intro s request s' es _ hsaved hs
    obtain ⟨s₁, reply₁, hcb₁, hsaved₁, -⟩ := served_of_ne request.langid hsaved (ne_of_step hs)
    obtain ⟨reply, hcb, -⟩ := step_eq_some_iff.1 hs
    rw [hcb₁] at hcb
    obtain ⟨rfl, -⟩ := Prod.mk.inj (Option.some.inj hcb)
    exact hsaved₁
  exact (System.run_of_exec h).invariant' (P := fun s _ => SavedId id s) (savedId_initial id) hstep

/-- A history that comes back does not ask for the index behind the table. -/
theorem ne_of_exec {requests : List StringRequest}
    {tr : List (Transition Strings StringRequest StringReply)}
    (h : (stringDescriptors id).exec Strings.initial requests = some (tr, s)) :
    ∀ r ∈ requests, r.index.toNat ≠ stringDescArr.length := by
  intro r hr
  rw [← System.labels_of_exec h] at hr
  obtain ⟨t, ht, rfl⟩ := List.mem_map.1 hr
  obtain ⟨pre, -, -, hs⟩ := (System.run_of_exec h).mem ht
  exact ne_of_step hs

/-- **Histories of string requests are answered well** exactly if none of their requests
asks for the index behind the table. -/
theorem wellServed_iff (id : BoardId) (requests : List StringRequest) :
    WellServed id requests ↔ ∀ r ∈ requests, r.index.toNat ≠ stringDescArr.length := by
  constructor
  · rintro ⟨tr, s, hexec, -⟩
    exact ne_of_exec hexec
  · intro hne
    have hstep : ∀ s, ∀ r ∈ requests, SavedId id s →
        ∃ s' es, (stringDescriptors id).step s r = some (s', es) ∧ SavedId id s' ∧
          ∃ reply, es = [reply] ∧ Answers id r.index reply := by
      intro s r hr hsaved
      obtain ⟨s', reply, hcb, hsaved', hanswers⟩ := served_of_ne r.langid hsaved (hne r hr)
      exact ⟨s', [reply], step_eq_some_iff.2 ⟨reply, hcb, rfl⟩, hsaved', reply, rfl, hanswers⟩
    obtain ⟨tr, s, hexec, -, hall⟩ := System.exec_of_step
      (Q := fun t : Transition Strings StringRequest StringReply =>
        ∃ reply, t.events = [reply] ∧ Answers id t.label.index reply)
      (savedId_initial id) hstep
    exact ⟨tr, s, hexec, hall⟩

/-- The index behind the table reads past it. -/
theorem string_index_seven :
    ¬ WellServed (Vector.replicate 8 0) [⟨1, 0x0409⟩, ⟨7, 0x0409⟩] := by
  rintro ⟨tr, s, hexec, -⟩
  exact ne_of_exec hexec ⟨7, 0x0409⟩ (by simp) (by decide)

end Pcrb
