import Sptag.Socket.Packet

/-! The read loop of `Connection.cpp`: headers and bodies are read in turn into one packet, and
each packet is handed to the handler of its type. -/

namespace Sptag.Socket

open Lib

namespace Connection

/-- A packet that has been read: its header, and what the handler of its type, if there is one,
finds at `Body()`. -/
structure Dispatch where
  header : PacketHeader
  exposed : Option Bytes
  deriving DecidableEq

structure Allocation where
  bodyLength : UInt32
  bufferCapacity : UInt32
  deriving DecidableEq

inductive Reading
  | header
  | body
  | stopped
  deriving DecidableEq

structure State where
  packetRead : Packet
  reading : Reading
  remoteConnectionID : ConnectionID
  stream : Bytes
  dispatched : List Dispatch
  allocated : List Allocation
  deriving DecidableEq

def c_registerResponse : PacketType := 0x82

def start (bufferCapacity : UInt32) (stream : Bytes) : State where
  packetRead := ⟨PacketHeader.undefined, none, bufferCapacity⟩
  reading := .header
  remoteConnectionID := c_invalidConnectionID
  stream := stream
  dispatched := []
  allocated := []

section Loop

-- `handles` holds for a type that has a handler in `c_handlerMap`.
variable (handles : PacketType → Bool)

/-- The packet is moved into the handler of its type. Of the handlers for the types of the
connection itself, one changes its state. -/
def handleReadBody (c : State) : State :=
  let header := c.packetRead.header
  let handled := handles header.packetType
  { c with
    packetRead := if handled then c.packetRead.moved else c.packetRead
    reading := .header
    remoteConnectionID := if header.packetType = c_registerResponse then header.connectionID
      else c.remoteConnectionID
    dispatched := c.dispatched ++
      [⟨header, if handled then some (c.packetRead.body.getD []) else none⟩] }

def handleReadHeader (c : State) (headerBuffer : Bytes) : State :=
  let header := PacketHeader.readBuffer headerBuffer
  let packetRead := { c.packetRead with header := header }
  if 0 < header.bodyLength then
    let packetRead := packetRead.allocateBuffer header.bodyLength
    { c with
      packetRead := packetRead
      reading := .body
      allocated := c.allocated ++ [⟨header.bodyLength, packetRead.bufferCapacity⟩] }
  else handleReadBody handles { c with packetRead := packetRead }

/-- The read under way ends: with its bytes, or with an error where the stream is too short or
there is nothing to read into. -/
def step (c : State) : State :=
  match c.reading with
  | .header =>
    match readFront PacketHeader.c_bufferSize c.stream with
    | none => { c with reading := .stopped }
    | some (headerBuffer, stream) =>
      handleReadHeader handles { c with stream := stream } headerBuffer
  | .body =>
    match c.packetRead.body, readFront c.packetRead.header.bodyLength.toNat c.stream with
    | some _, some (bytes, stream) =>
      handleReadBody handles
        { c with packetRead := c.packetRead.writeBody bytes, stream := stream }
    | _, _ => { c with reading := .stopped }
  | .stopped => c

def readLoop (bufferCapacity : UInt32) (stream : Bytes) : State :=
  (step handles)^[stream.length + 1] (start bufferCapacity stream)

end Loop

structure Sent where
  header : PacketHeader
  padding : Bytes
  body : Bytes
  padded : padding.length = 2
  sized : body.length = header.bodyLength.toNat

namespace Sent

def bytes (p : Sent) : Bytes := p.header.writeBuffer ++ p.padding ++ p.body

def dispatch (handles : PacketType → Bool) (p : Sent) : Dispatch where
  header := p.header
  exposed := if handles p.header.packetType then some p.body else none

end Sent

/-- The read loop dispatches the packets, with their own bodies, from buffers that are long
enough. -/
def Framed (handles : PacketType → Bool) (c : State) (packets : List Sent) : Prop :=
  c.dispatched = packets.map (Sent.dispatch handles) ∧
    ∀ a ∈ c.allocated, 16 + a.bodyLength.toNat ≤ a.bufferCapacity.toNat

section Packets

variable {handles : PacketType → Bool}

def leave (handles : PacketType → Bool) (m : Option Bytes) (p : Sent) : Option Bytes :=
  if handles p.header.packetType then none
  else if p.header.bodyLength = 0 then m else some p.body

def expose (handles : PacketType → Bool) (m : Option Bytes) (p : Sent) : Dispatch where
  header := p.header
  exposed := if handles p.header.packetType then
      some (if p.header.bodyLength = 0 then m.getD [] else p.body)
    else none

def dispatches (handles : PacketType → Bool) : Option Bytes → List Sent → List Dispatch
  | _, [] => []
  | m, p :: packets => expose handles m p :: dispatches handles (leave handles m p) packets

def Fits (p : Sent) : Prop := 16 + p.header.bodyLength.toNat < 2 ^ 32

structure Reads (c c' : State) (ds : List Dispatch) (m : Option Bytes) (stream : Bytes) : Prop where
  reading : c'.reading = .header
  stream : c'.stream = stream
  body : c'.packetRead.body = m
  dispatched : c'.dispatched = c.dispatched ++ ds
  allocated : ∀ a ∈ c'.allocated, a ∈ c.allocated ∨
    16 + a.bodyLength.toNat ≤ a.bufferCapacity.toNat

variable {c c' : State} {p q : Sent} {packets pre : List Sent} {m : Option Bytes} {rest : Bytes}

theorem Sent.header_length (p : Sent) : (p.header.writeBuffer ++ p.padding).length = 16 := by
  rw [List.length_append, PacketHeader.writeBuffer_length, p.padded]

theorem step_header (hreading : c.reading = .header) (hstream : c.stream = p.bytes ++ rest) :
    step handles c = handleReadHeader handles { c with stream := p.body ++ rest }
      (p.header.writeBuffer ++ p.padding) := by
  have hfront : readFront PacketHeader.c_bufferSize c.stream =
      some (p.header.writeBuffer ++ p.padding, p.body ++ rest) := by
    rw [hstream, Sent.bytes, List.append_assoc]
    exact readFront_eq p.header_length _
  rw [step, hreading]
  simp only [hfront]

theorem body_eq_nil (h : p.header.bodyLength = 0) : p.body = [] := by
  apply List.eq_nil_of_length_eq_zero
  rw [p.sized, h]
  rfl

theorem bodyLength_pos_iff : 0 < p.header.bodyLength ↔ p.header.bodyLength ≠ 0 := by
  rw [UInt32.lt_iff_toNat_lt, Ne, ← UInt32.toNat_inj]
  exact Nat.pos_iff_ne_zero

theorem handleReadBody_body (c : State) : (handleReadBody handles c).packetRead.body =
    if handles c.packetRead.header.packetType then none else c.packetRead.body := by
  cases hhandles : handles c.packetRead.header.packetType <;> simp [handleReadBody, hhandles]
  rfl

theorem handleReadBody_dispatched (c : State) : (handleReadBody handles c).dispatched =
    c.dispatched ++ [⟨c.packetRead.header, if handles c.packetRead.header.packetType then
      some (c.packetRead.body.getD []) else none⟩] := rfl

theorem reads_of_zero (hreading : c.reading = .header) (hstream : c.stream = p.bytes ++ rest)
    (h : p.header.bodyLength = 0) :
    Reads c (step handles c) [expose handles c.packetRead.body p]
      (leave handles c.packetRead.body p) rest := by
  have hpos : ¬ 0 < p.header.bodyLength := fun hlt => bodyLength_pos_iff.mp hlt h
  rw [step_header hreading hstream, handleReadHeader, PacketHeader.readBuffer_writeBuffer,
    body_eq_nil h]
  simp only [hpos, ↓reduceIte]
  refine ⟨rfl, rfl, ?_, ?_, fun a ha => Or.inl ha⟩
  · rw [handleReadBody_body, leave, if_pos h]
    rfl
  · rw [handleReadBody_dispatched, expose, if_pos h]
    rfl

def newPacket (c : State) (p : Sent) : Packet :=
  { c.packetRead with header := p.header }.allocateBuffer p.header.bodyLength

def between (c : State) (p : Sent) (rest : Bytes) : State :=
  { c with
    packetRead := newPacket c p
    reading := .body
    stream := p.body ++ rest
    allocated := c.allocated ++ [⟨p.header.bodyLength, (newPacket c p).bufferCapacity⟩] }

theorem step_eq_between (hreading : c.reading = .header) (hstream : c.stream = p.bytes ++ rest)
    (h : p.header.bodyLength ≠ 0) : step handles c = between c p rest := by
  have hpos : 0 < p.header.bodyLength := bodyLength_pos_iff.mpr h
  rw [step_header hreading hstream, handleReadHeader, PacketHeader.readBuffer_writeBuffer]
  exact if_pos hpos

theorem body_newPacket (h : p.header.bodyLength ≠ 0) (hfits : Fits p) :
    ((newPacket c p).writeBody p.body).body = some p.body :=
  Packet.body_writeBody p.sized (UInt32.lt_iff_toNat_lt.mp (bodyLength_pos_iff.mpr h)) hfits

theorem bufferCapacity_newPacket (c : State) (hfits : Fits p) :
    (newPacket c p).bufferCapacity.toNat = 16 + p.header.bodyLength.toNat :=
  Packet.bufferCapacity_of_lt hfits

theorem exists_body_newPacket (h : p.header.bodyLength ≠ 0) (hfits : Fits p) :
    ∃ bytes, (newPacket c p).body = some bytes := by
  have hlt : PacketHeader.c_bufferSize < (newPacket c p).bufferCapacity.toNat := by
    rw [bufferCapacity_newPacket c hfits]
    exact Nat.lt_add_of_pos_right (UInt32.lt_iff_toNat_lt.mp (bodyLength_pos_iff.mpr h))
  exact ⟨_, if_pos hlt⟩

theorem reads_of_pos (hreading : c.reading = .header) (hstream : c.stream = p.bytes ++ rest)
    (h : p.header.bodyLength ≠ 0) (hfits : Fits p) :
    Reads c (step handles (step handles c)) [expose handles c.packetRead.body p]
      (leave handles c.packetRead.body p) rest := by
  have hbody := body_newPacket (c := c) h hfits
  have ⟨bytes, hbytes⟩ := exists_body_newPacket (c := c) h hfits
  have hfront : readFront p.header.bodyLength.toNat (p.body ++ rest) = some (p.body, rest) :=
    readFront_eq p.sized rest
  have hstep : step handles (between c p rest) = handleReadBody handles
      { between c p rest with
        packetRead := (newPacket c p).writeBody p.body
        stream := rest } := by
    change (match (newPacket c p).body, readFront p.header.bodyLength.toNat (p.body ++ rest) with
      | some _, some (bytes, stream) => _
      | _, _ => _) = _
    rw [hbytes, hfront]
    rfl
  rw [step_eq_between hreading hstream h, hstep]
  refine ⟨rfl, rfl, ?_, ?_, ?_⟩
  · rw [handleReadBody_body, leave, if_neg h]
    exact congrArg (ite _ none) hbody
  · rw [handleReadBody_dispatched, expose, if_neg h]
    simp only [hbody]
    rfl
  · intro a ha
    cases List.mem_append.mp ha with
    | inl ha => exact Or.inl ha
    | inr ha =>
      rw [List.mem_singleton.mp ha]
      exact Or.inr (bufferCapacity_newPacket c hfits).ge

theorem Reads.trans {c'' : State} {ds ds' : List Dispatch} {m m' : Option Bytes}
    {stream stream' : Bytes} (h : Reads c c' ds m stream) (h' : Reads c' c'' ds' m' stream') :
    Reads c c'' (ds ++ ds') m' stream' := by
  refine ⟨h'.reading, h'.stream, h'.body, ?_, fun a ha => ?_⟩
  · rw [h'.dispatched, h.dispatched, List.append_assoc]
  · cases h'.allocated a ha with
    | inl ha => exact h.allocated a ha
    | inr ha => exact Or.inr ha

theorem bytes_length (p : Sent) : 16 ≤ p.bytes.length := by
  rw [Sent.bytes, List.length_append, p.header_length]
  exact Nat.le_add_right _ _

theorem reads_packet (handles : PacketType → Bool) (hreading : c.reading = .header)
    (hstream : c.stream = p.bytes ++ rest) (hfits : Fits p) :
    ∃ k ≤ 2, Reads c ((step handles)^[k] c) [expose handles c.packetRead.body p]
      (leave handles c.packetRead.body p) rest := by
  cases decEq p.header.bodyLength 0 with
  | isTrue h => exact ⟨1, Nat.le_succ 1, reads_of_zero hreading hstream h⟩
  | isFalse h => exact ⟨2, Nat.le_refl 2, reads_of_pos hreading hstream h hfits⟩

theorem reads_packets (handles : PacketType → Bool) (hreading : c.reading = .header)
    (hstream : c.stream = packets.flatMap Sent.bytes ++ rest) (hfits : ∀ p ∈ packets, Fits p) :
    ∃ k ≤ (packets.flatMap Sent.bytes).length, Reads c ((step handles)^[k] c)
      (dispatches handles c.packetRead.body packets)
      (packets.foldl (leave handles) c.packetRead.body) rest := by
  induction packets generalizing c with
  | nil => exact ⟨0, Nat.le_refl 0, hreading, hstream, rfl, (List.append_nil _).symm,
      fun a ha => Or.inl ha⟩
  | cons p packets ih =>
    rw [List.flatMap_cons, List.append_assoc] at hstream
    have ⟨k, hk, hp⟩ := reads_packet handles hreading hstream (hfits p List.mem_cons_self)
    have ⟨k', hk', hpackets⟩ := ih hp.reading hp.stream
      fun q hq => hfits q (List.mem_cons_of_mem p hq)
    refine ⟨k' + k, ?_, ?_⟩
    · rw [List.flatMap_cons, List.length_append, Nat.add_comm k']
      exact Nat.add_le_add (hk.trans ((bytes_length p).trans' (by decide))) hk'
    · rw [hp.body, ← Function.iterate_add_apply] at hpackets
      exact hp.trans hpackets

theorem step_of_end (hreading : c.reading = .header) (hstream : c.stream = []) :
    step handles c = { c with reading := .stopped } := by
  rw [step, hreading, hstream]
  rfl

theorem step_iterate_stopped (h : c.reading = .stopped) (n : Nat) :
    (step handles)^[n] c = c := by
  apply Function.iterate_fixed
  rw [step, h]

theorem readLoop_of_fits (handles : PacketType → Bool) (bufferCapacity : UInt32)
    (hfits : ∀ p ∈ packets, Fits p) :
    (readLoop handles bufferCapacity (packets.flatMap Sent.bytes)).dispatched =
        dispatches handles none packets ∧
      ∀ a ∈ (readLoop handles bufferCapacity (packets.flatMap Sent.bytes)).allocated,
        16 + a.bodyLength.toNat ≤ a.bufferCapacity.toNat := by
  have ⟨k, hk, h⟩ := reads_packets handles
    (c := start bufferCapacity (packets.flatMap Sent.bytes)) rfl (List.append_nil _).symm hfits
  have hloop : readLoop handles bufferCapacity (packets.flatMap Sent.bytes) =
      { (step handles)^[k] (start bufferCapacity (packets.flatMap Sent.bytes)) with
        reading := .stopped } := by
    rw [readLoop, ← Nat.sub_add_cancel hk, Nat.add_right_comm, Function.iterate_add_apply,
      Function.iterate_succ_apply, step_of_end h.reading h.stream, step_iterate_stopped rfl]
  rw [hloop]
  refine ⟨h.dispatched, fun a ha => ?_⟩
  cases h.allocated a ha with
  | inl ha => cases ha
  | inr ha => exact ha

theorem step_allocated {a : Allocation} (ha : a ∈ c.allocated) :
    a ∈ (step handles c).allocated := by
  rw [step]
  split
  · split
    · exact ha
    · rw [handleReadHeader]
      split
      · exact List.mem_append_left _ ha
      · exact ha
  · split
    · exact ha
    · exact ha
  · exact ha

theorem iterate_allocated {a : Allocation} (ha : a ∈ c.allocated) (n : Nat) :
    a ∈ ((step handles)^[n] c).allocated := by
  induction n generalizing c with
  | zero => exact ha
  | succ n ih => exact ih (step_allocated ha)

theorem readLoop_of_not_fits (handles : PacketType → Bool) (bufferCapacity : UInt32)
    {xs : List Sent} (ys : List Sent)
    (hxs : ∀ p ∈ xs, Fits p) (hp : ¬ Fits p) : ∃ a ∈ (readLoop handles bufferCapacity
      ((xs ++ p :: ys).flatMap Sent.bytes)).allocated,
        a.bufferCapacity.toNat < 16 + a.bodyLength.toNat := by
  have hlen : p.header.bodyLength ≠ 0 := by
    intro h
    rw [Fits, h] at hp
    exact hp (by decide)
  have hstream : (xs ++ p :: ys).flatMap Sent.bytes =
      xs.flatMap Sent.bytes ++ (p.bytes ++ ys.flatMap Sent.bytes) := by
    rw [List.flatMap_append, List.flatMap_cons]
  have ⟨k, hk, h⟩ := reads_packets handles
    (c := start bufferCapacity ((xs ++ p :: ys).flatMap Sent.bytes)) rfl hstream hxs
  have hk' : k ≤ ((xs ++ p :: ys).flatMap Sent.bytes).length := by
    rw [hstream, List.length_append]
    exact hk.trans (Nat.le_add_right _ _)
  refine ⟨⟨p.header.bodyLength, (newPacket (start bufferCapacity []) p).bufferCapacity⟩, ?_, ?_⟩
  · rw [readLoop, ← Nat.sub_add_cancel hk', Nat.add_right_comm, Function.iterate_add_apply,
      Function.iterate_succ_apply, step_eq_between h.reading h.stream hlen]
    exact iterate_allocated (List.mem_append_right _ List.mem_cons_self) _
  · have hcapacity : (newPacket (start bufferCapacity []) p).bufferCapacity.toNat =
        (16 + p.header.bodyLength.toNat) % 2 ^ 32 := Packet.bufferCapacity_toNat _ _
    rw [hcapacity]
    exact (Nat.mod_lt _ (by decide)).trans_le (Nat.le_of_not_lt hp)

def Cleared (handles : PacketType → Bool) (packets : List Sent) : Prop :=
  ∀ xs p ys q zs, packets = xs ++ p :: ys ++ q :: zs →
    p.header.bodyLength ≠ 0 → q.header.bodyLength = 0 → handles q.header.packetType →
    ∃ r ∈ p :: ys, handles r.header.packetType

theorem expose_eq_iff : expose handles m p = p.dispatch handles ↔
    (p.header.bodyLength = 0 → handles p.header.packetType → m.getD [] = []) := by
  rw [expose, Sent.dispatch, Dispatch.mk.injEq, eq_self, true_and]
  cases handles p.header.packetType with
  | false => simp
  | true =>
    rw [if_pos rfl, if_pos rfl, Option.some.injEq]
    split
    next h => simp [h, body_eq_nil h]
    next h => simp [h]

theorem dispatches_eq_iff : dispatches handles m packets = packets.map (Sent.dispatch handles) ↔
    ∀ pre q post, packets = pre ++ q :: post → q.header.bodyLength = 0 →
      handles q.header.packetType → (pre.foldl (leave handles) m).getD [] = [] := by
  induction packets generalizing m with
  | nil => simp [dispatches]
  | cons p packets ih =>
    rw [dispatches, List.map_cons, List.cons.injEq, ih, expose_eq_iff]
    constructor
    · intro ⟨hp, hpackets⟩ pre q post heq
      cases pre with
      | nil =>
        cases heq
        exact hp
      | cons p' pre =>
        cases heq
        exact hpackets pre q post rfl
    · intro h
      exact ⟨h [] p packets rfl, fun pre q post heq => h (p :: pre) q post (by rw [heq]; rfl)⟩

theorem foldl_leave_eq_nil_iff : (pre.foldl (leave handles) none).getD [] = [] ↔
    ∀ xs p ys, pre = xs ++ p :: ys → p.header.bodyLength ≠ 0 →
      ∃ r ∈ p :: ys, handles r.header.packetType := by
  induction pre using List.reverseRecOn with
  | nil => simp
  | append_singleton pre q ih =>
    have hlast : ∀ xs p ys, pre ++ [q] = xs ++ p :: ys → q ∈ p :: ys := by
      intro xs p ys heq
      have := congrArg List.getLast? heq
      rw [List.getLast?_concat, List.getLast?_append_of_ne_nil _ (by simp)] at this
      exact List.mem_of_getLast? this.symm
    rw [List.foldl_concat, leave]
    cases hhandles : handles q.header.packetType with
    | true => exact iff_of_true rfl fun xs p ys heq _ => ⟨q, hlast xs p ys heq, hhandles⟩
    | false =>
      rw [if_neg Bool.false_ne_true]
      split
      next hlen =>
        rw [ih]
        constructor
        · intro h xs p ys heq hp
          cases List.eq_nil_or_concat ys with
          | inl hys =>
            rw [hys] at heq
            have hq : q = p := List.singleton_inj.mp (List.append_inj_right' heq rfl)
            exact absurd (hq ▸ hlen) hp
          | inr hys =>
            have ⟨ys', q', hys⟩ := hys
            rw [List.concat_eq_append] at hys
            rw [hys, ← List.cons_append, ← List.append_assoc] at heq
            have ⟨r, hr, hhandled⟩ := h xs p ys' (List.append_inj_left' heq rfl) hp
            rw [hys, ← List.cons_append]
            exact ⟨r, List.mem_append_left _ hr, hhandled⟩
        · intro h xs p ys heq hp
          have ⟨r, hr, hhandled⟩ := h xs p (ys ++ [q]) (by rw [heq, List.append_assoc]; rfl) hp
          rw [← List.cons_append] at hr
          cases List.mem_append.mp hr with
          | inl hr => exact ⟨r, hr, hhandled⟩
          | inr hr =>
            rw [List.mem_singleton.mp hr, hhandles] at hhandled
            cases hhandled
      next hlen =>
        refine iff_of_false (fun hnil => hlen ?_) fun h => ?_
        · have hsized := q.sized
          rw [Option.getD_some.symm.trans hnil] at hsized
          exact UInt32.toNat_inj.mp hsized.symm
        · have ⟨r, hr, hhandled⟩ := h pre q [] rfl hlen
          rw [List.mem_singleton.mp hr, hhandles] at hhandled
          cases hhandled

theorem dispatches_eq_iff_cleared :
    dispatches handles none packets = packets.map (Sent.dispatch handles) ↔
      Cleared handles packets := by
  rw [dispatches_eq_iff]
  constructor
  · intro h xs p ys q zs heq hp hq hhandled
    exact foldl_leave_eq_nil_iff.mp (h (xs ++ p :: ys) q zs heq hq hhandled) xs p ys rfl hp
  · intro h pre q post heq hq hhandled
    rw [foldl_leave_eq_nil_iff]
    intro xs p ys hpre hp
    rw [hpre] at heq
    exact h xs p ys q post heq hp hq hhandled

theorem exists_first_not_fits (h : ¬ ∀ p ∈ packets, Fits p) :
    ∃ xs p ys, packets = xs ++ p :: ys ∧ (∀ p ∈ xs, Fits p) ∧ ¬ Fits p := by
  induction packets with
  | nil => exact absurd (fun p hp => absurd hp List.not_mem_nil) h
  | cons p packets ih =>
    cases Nat.decLt (16 + p.header.bodyLength.toNat) (2 ^ 32) with
    | isFalse hp => exact ⟨[], p, packets, rfl, fun q hq => absurd hq List.not_mem_nil, hp⟩
    | isTrue hp =>
      have ⟨xs, q, ys, heq, hxs, hq⟩ := ih fun hpackets =>
        h (List.forall_mem_cons.mpr ⟨hp, hpackets⟩)
      exact ⟨p :: xs, q, ys, by rw [heq]; rfl, List.forall_mem_cons.mpr ⟨hp, hxs⟩, hq⟩

/-- The packets are dispatched as they were sent exactly when no buffer wraps around and no
packet without a body finds an earlier one. -/
theorem framed_iff (handles : PacketType → Bool) (bufferCapacity : UInt32) (packets : List Sent) :
    Framed handles (readLoop handles bufferCapacity (packets.flatMap Sent.bytes)) packets ↔
      (∀ p ∈ packets, Fits p) ∧ Cleared handles packets := by
  constructor
  · intro ⟨hdispatched, hallocated⟩
    have hfits : ∀ p ∈ packets, Fits p := by
      apply Classical.byContradiction
      intro hfits
      have ⟨xs, p, ys, heq, hxs, hp⟩ := exists_first_not_fits hfits
      have ⟨a, ha, hlt⟩ := readLoop_of_not_fits handles bufferCapacity ys hxs hp
      exact absurd (hallocated a (heq ▸ ha)) (Nat.not_le_of_lt hlt)
    rw [(readLoop_of_fits handles bufferCapacity hfits).1, dispatches_eq_iff_cleared] at hdispatched
    exact ⟨hfits, hdispatched⟩
  · intro ⟨hfits, hcleared⟩
    have ⟨hdispatched, hallocated⟩ := readLoop_of_fits handles bufferCapacity hfits
    exact ⟨hdispatched.trans (dispatches_eq_iff_cleared.mpr hcleared), hallocated⟩

end Packets

def leftBehind : List Sent :=
  [⟨⟨1, 0, 2, 0, 7⟩, [0, 0], [65, 66], rfl, rfl⟩, ⟨⟨0x83, 2, 0, 0, 8⟩, [0, 0], [], rfl, rfl⟩]

theorem exposes_earlier : ∃ handles packets,
    (readLoop handles 0 (packets.flatMap Sent.bytes)).dispatched =
        [⟨⟨1, 0, 2, 0, 7⟩, none⟩, ⟨⟨0x83, 2, 0, 0, 8⟩, some [65, 66]⟩] ∧
      ¬ Framed handles (readLoop handles 0 (packets.flatMap Sent.bytes)) packets := by
  refine ⟨fun type => type = 0x83, leftBehind, ?_, fun h => ?_⟩
  · decide +kernel
  · exact absurd h.1 (by decide +kernel)

end Connection

end Sptag.Socket
