import QuicMls.DatagramPacking
import QuicMls.HeaderKey

/-! `poll_recv` over any sequence of socket answers. One answer is one round of
its loop. A datagram is read into the next free buffer and gives that buffer
back when it is a preamble. -/
namespace QuicMls.PollRecv
open BigEndian Groups Transcript Preamble DatagramPacking PacketKey HeaderKey

inductive EcnCodepoint where
  | ect0
  | ect1
  | ce
  deriving DecidableEq

structure RecvMeta (SocketAddr IpAddr : Type) where
  addr : SocketAddr
  len : Nat
  stride : Nat
  ecn : Option EcnCodepoint
  dstIp : Option IpAddr
  deriving DecidableEq

/-- What `poll_recv_ready` and then `try_recv_from` answer in one round. -/
inductive SocketOutcome (SocketAddr IoError : Type) where
  | readyError (e : IoError)
  | pending
  | received (datagram : Bytes) (addr : SocketAddr)
  | wouldBlock
  | recvError (e : IoError)

/-- `polling` is the loop waiting for a further answer. -/
inductive Polled (IoError : Type) where
  | ready (filled : Nat)
  | error (e : IoError)
  | pending
  | panicked
  | polling
  deriving DecidableEq

/-- The caller's buffers and metas, the count of filled ones, and what is behind
the commit sink. -/
structure Receiving (SocketAddr IpAddr State : Type) where
  bufs : List Bytes
  metas : List (RecvMeta SocketAddr IpAddr)
  filled : Nat
  state : State
  deriving DecidableEq

section Loop
variable {SocketAddr IpAddr IoError State : Type}

/-- A longer datagram is cut at the end of the buffer. -/
def tryRecvFrom (buffer datagram : Bytes) : Nat × Bytes :=
  let len := min datagram.length buffer.length
  (len, datagram.take len ++ buffer.drop len)

/-- `none` is the panic of a meta slice that is too short. -/
def Receiving.receive (sink : Option (CommitSink State)) (receiving : Receiving SocketAddr IpAddr State)
    (datagram : Bytes) (addr : SocketAddr) : Option (Receiving SocketAddr IpAddr State) :=
  let (len, buffer) := tryRecvFrom (receiving.bufs.getD receiving.filled []) datagram
  let receiving := { receiving with bufs := receiving.bufs.set receiving.filled buffer }
  match parsePreamble (buffer.take len) with
  | some _ =>
      some { receiving with
        state := handlePreambleDatagram sink (slice buffer 1 len) receiving.state }
  | none =>
      if receiving.filled < receiving.metas.length then
        let recvMeta := { addr := addr, len := len, stride := len, ecn := none, dstIp := none }
        some { receiving with
          metas := receiving.metas.set receiving.filled recvMeta,
          filled := receiving.filled + 1 }
      else none

/-- Filled buffers are returned before anything else is. -/
def Receiving.leave (receiving : Receiving SocketAddr IpAddr State) (polled : Polled IoError) :
    Polled IoError :=
  if receiving.filled > 0 then .ready receiving.filled else polled

/-- The result, the locals and the answers that were not asked for. -/
def pollLoop (sink : Option (CommitSink State)) (outcomes : List (SocketOutcome SocketAddr IoError))
    (receiving : Receiving SocketAddr IpAddr State) :
    Polled IoError × Receiving SocketAddr IpAddr State × List (SocketOutcome SocketAddr IoError) :=
  if receiving.filled ≥ receiving.bufs.length then (.ready receiving.filled, receiving, outcomes)
  else
    match outcomes with
    | [] => (.polling, receiving, [])
    | .readyError e :: rest => (receiving.leave (.error e), receiving, rest)
    | .pending :: rest => (receiving.leave .pending, receiving, rest)
    | .received datagram addr :: rest =>
        match receiving.receive sink datagram addr with
        | some receiving => pollLoop sink rest receiving
        | none => (.panicked, receiving, rest)
    | .wouldBlock :: rest =>
        if receiving.filled > 0 then (.ready receiving.filled, receiving, rest)
        -- Nothing is filled: the source asks for readiness again, to register the waker.
        else pollLoop sink rest receiving
    | .recvError e :: rest => (receiving.leave (.error e), receiving, rest)

def pollRecv (sink : Option (CommitSink State)) (outcomes : List (SocketOutcome SocketAddr IoError))
    (bufs : List Bytes) (metas : List (RecvMeta SocketAddr IpAddr)) (state : State) :
    Polled IoError × Receiving SocketAddr IpAddr State × List (SocketOutcome SocketAddr IoError) :=
  pollLoop sink outcomes { bufs := bufs, metas := metas, filled := 0, state := state }

end Loop

/-! ### What the answers hold -/

section Specification
variable {SocketAddr IpAddr IoError State : Type}

/-- A datagram and its sender. -/
abbrev Arrival (SocketAddr : Type) := Bytes × SocketAddr

def arrivals (outcomes : List (SocketOutcome SocketAddr IoError)) : List (Arrival SocketAddr) :=
  outcomes.filterMap fun outcome =>
    match outcome with
    | .received datagram addr => some (datagram, addr)
    | _ => none

/-- An arrival as some buffer takes it. -/
def ReadInto (bufs : List Bytes) (arrival read : Arrival SocketAddr) : Prop :=
  read.2 = arrival.2 ∧ ∃ buffer ∈ bufs, read.1 = arrival.1.take buffer.length

def isPreamble (datagram : Bytes) : Bool := datagram.head?.any isPreambleMarker

def quicDatagrams (consumed : List (Arrival SocketAddr)) : List (Arrival SocketAddr) :=
  consumed.filter fun read => !isPreamble read.1

def preambleWindows (consumed : List (Arrival SocketAddr)) : List Window :=
  consumed.filterMap fun read => decodedWindow read.1

/-- The sink called with each window in turn. -/
def sinkAll (sink : Option (CommitSink State)) (windows : List Window) (state : State) : State :=
  match sink with
  | some sink => windows.foldl (fun state window => sink window state) state
  | none => state

/-- Buffer and meta `i` hold datagram `i`. -/
def HoldsAll (receiving : Receiving SocketAddr IpAddr State) (datagrams : List (Arrival SocketAddr)) : Prop :=
  ∀ (i : Nat) (read : Arrival SocketAddr), datagrams[i]? = some read →
    (∃ buffer : Bytes, receiving.bufs[i]? = some buffer ∧ buffer.take read.1.length = read.1) ∧
    receiving.metas[i]? = some
      { addr := read.2, len := read.1.length, stride := read.1.length, ecn := none, dstIp := none }

theorem quicDatagrams_append (consumed : List (Arrival SocketAddr)) (read : Arrival SocketAddr) :
    quicDatagrams (consumed ++ [read]) =
      if isPreamble read.1 then quicDatagrams consumed else quicDatagrams consumed ++ [read] := by
  cases marked : isPreamble read.1 <;> simp [quicDatagrams, marked]

theorem preambleWindows_append (consumed : List (Arrival SocketAddr)) (read : Arrival SocketAddr) :
    preambleWindows (consumed ++ [read]) = preambleWindows consumed ++ (decodedWindow read.1).toList := by
  cases decoded : decodedWindow read.1 <;> simp [preambleWindows, decoded]

theorem sinkAll_append (sink : Option (CommitSink State)) (before after : List Window) (state : State) :
    sinkAll sink (before ++ after) state = sinkAll sink after (sinkAll sink before state) := by
  cases sink with
  | none => rfl
  | some sink => exact List.foldl_append

theorem decodedWindow_quic {datagram : Bytes} (quic : isPreamble datagram = false) :
    decodedWindow datagram = none := by
  cases datagram with
  | nil => rfl
  | cons first rest =>
      rw [isPreamble, List.head?_cons, Option.any_some] at quic
      rw [decodedWindow, parsePreamble, quic]
      rfl

theorem isPreamble_quic {datagram : Bytes} (passed : parsePreamble datagram = none) :
    isPreamble datagram = false := by
  cases datagram with
  | nil => rfl
  | cons first rest =>
      rw [parsePreamble] at passed
      split at passed
      · cases passed
      · rename_i marker
        simpa [isPreamble] using marker

/-- Where a datagram goes and what the sink gets of it. -/
theorem demultiplex_eq (sink : Option (CommitSink State)) (datagram : Bytes) (state : State) :
    demultiplex sink datagram state =
      (if isPreamble datagram then none else some datagram,
        sinkAll sink (decodedWindow datagram).toList state) := by
  cases datagram with
  | nil => cases sink <;> rfl
  | cons first rest =>
      rw [demultiplex, decodedWindow, parsePreamble, isPreamble, List.head?_cons, Option.any_some]
      by_cases marked : isPreambleMarker first = true
      · rw [if_pos marked, if_pos marked, handlePreambleDatagram, List.drop_one, List.tail_cons]
        cases decodeTranscript rest with
        | error e => cases sink <;> rfl
        | ok window => cases sink <;> rfl
      · rw [if_neg marked, if_neg marked]
        cases sink <;> rfl

/-- What the loop has done once `consumed` is read. -/
structure Consumed (sink : Option (CommitSink State)) (bufs : List Bytes)
    (metas : List (RecvMeta SocketAddr IpAddr)) (state : State)
    (consumed : List (Arrival SocketAddr)) (receiving : Receiving SocketAddr IpAddr State) : Prop where
  sizes : receiving.bufs.map List.length = bufs.map List.length
  described : receiving.metas.length = metas.length
  filled : receiving.filled = (quicDatagrams consumed).length
  room : receiving.filled ≤ bufs.length
  holds : HoldsAll receiving (quicDatagrams consumed)
  state : receiving.state = sinkAll sink (preambleWindows consumed) state

theorem consumed_start (sink : Option (CommitSink State)) (bufs : List Bytes)
    (metas : List (RecvMeta SocketAddr IpAddr)) (state : State) :
    Consumed sink bufs metas state [] { bufs := bufs, metas := metas, filled := 0, state := state } where
  sizes := rfl
  described := rfl
  filled := rfl
  room := Nat.zero_le _
  holds := fun i read absurd => by simp [quicDatagrams] at absurd
  state := by cases sink <;> rfl

/-- Writing the slot behind the filled ones leaves what they hold. -/
theorem HoldsAll.scratch {receiving : Receiving SocketAddr IpAddr State}
    {datagrams : List (Arrival SocketAddr)} (holds : HoldsAll receiving datagrams)
    (filled : receiving.filled = datagrams.length) (buffer : Bytes) (state : State) :
    HoldsAll { receiving with bufs := receiving.bufs.set receiving.filled buffer, state := state }
      datagrams := by
  intro i read here
  obtain ⟨⟨held, found, front⟩, described⟩ := holds i read here
  have before : i < datagrams.length := (List.getElem?_eq_some_iff.mp here).1
  refine ⟨⟨held, ?_, front⟩, described⟩
  rw [List.getElem?_set_ne (by omega), found]

theorem HoldsAll.push {receiving : Receiving SocketAddr IpAddr State}
    {datagrams : List (Arrival SocketAddr)} (holds : HoldsAll receiving datagrams)
    (filled : receiving.filled = datagrams.length) (free : receiving.filled < receiving.bufs.length)
    (described : receiving.filled < receiving.metas.length)
    {read : Arrival SocketAddr} {buffer : Bytes} (front : buffer.take read.1.length = read.1) :
    HoldsAll
      { receiving with
        bufs := receiving.bufs.set receiving.filled buffer,
        metas := receiving.metas.set receiving.filled
          { addr := read.2, len := read.1.length, stride := read.1.length, ecn := none, dstIp := none },
        filled := receiving.filled + 1 }
      (datagrams ++ [read]) := by
  intro i other here
  rcases Nat.lt_or_ge i datagrams.length with before | behind
  · rw [List.getElem?_append_left before] at here
    obtain ⟨⟨held, found, kept⟩, same⟩ := holds i other here
    refine ⟨⟨held, ?_, kept⟩, ?_⟩
    · rw [List.getElem?_set_ne (by omega), found]
    · rw [List.getElem?_set_ne (by omega), same]
  · have last : i = receiving.filled := by
      have within := (List.getElem?_eq_some_iff.mp here).1
      rw [List.length_append, List.length_singleton] at within
      omega
    rw [last, filled, List.getElem?_concat_length] at here
    cases here
    rw [last]
    refine ⟨⟨buffer, ?_, front⟩, ?_⟩
    · exact List.getElem?_set_self free
    · exact List.getElem?_set_self described

/-- One read demultiplexes what the buffer took of the datagram. -/
theorem receive_eq (sink : Option (CommitSink State)) (receiving : Receiving SocketAddr IpAddr State)
    {datagram read buffer : Bytes} (addr : SocketAddr)
    (slot : receiving.bufs[receiving.filled]? = some buffer) (taken : datagram.take buffer.length = read) :
    receiving.receive sink datagram addr =
      match demultiplex sink read receiving.state with
      | (none, state) =>
          some { receiving with
            bufs := receiving.bufs.set receiving.filled (read ++ buffer.drop read.length),
            state := state }
      | (some _, _) =>
          if receiving.filled < receiving.metas.length then
            some { receiving with
              bufs := receiving.bufs.set receiving.filled (read ++ buffer.drop read.length),
              metas := receiving.metas.set receiving.filled
                { addr := addr, len := read.length, stride := read.length, ecn := none, dstIp := none },
              filled := receiving.filled + 1 }
          else none := by
  have cut : datagram.take (min datagram.length buffer.length) = read := by
    rw [← taken, List.take_eq_take_iff]
    omega
  have length : read.length = min datagram.length buffer.length := by
    rw [← taken, List.length_take, Nat.min_comm]
  have front : (read ++ buffer.drop (min datagram.length buffer.length)).take
      (min datagram.length buffer.length) = read := List.take_left' length
  simp only [Receiving.receive, tryRecvFrom, List.getD_eq_getElem?_getD, slot, Option.getD_some, cut, front,
    slice, length, demultiplex]
  cases parsePreamble read with
  | none => rfl
  | some decoded => rfl

section Step
variable {sink : Option (CommitSink State)} {bufs : List Bytes} {metas : List (RecvMeta SocketAddr IpAddr)}
  {state : State} {consumed : List (Arrival SocketAddr)} {receiving : Receiving SocketAddr IpAddr State}

theorem Consumed.count (after : Consumed sink bufs metas state consumed receiving) :
    receiving.bufs.length = bufs.length := by
  have counts := congrArg List.length after.sizes
  rwa [List.length_map, List.length_map] at counts

/-- A read keeps the lengths of the buffers. -/
theorem Consumed.rewrite (after : Consumed sink bufs metas state consumed receiving) {buffer : Bytes}
    (slot : receiving.bufs[receiving.filled]? = some buffer) {written : Bytes}
    (length : written.length = buffer.length) :
    (receiving.bufs.set receiving.filled written).map List.length = bufs.map List.length := by
  have free := (List.getElem?_eq_some_iff.mp slot).1
  rw [← after.sizes]
  apply List.ext_getElem?
  intro i
  by_cases here : receiving.filled = i
  · rw [← here, List.getElem?_map, List.getElem?_map, List.getElem?_set_self free, slot]
    simp [length]
  · rw [List.getElem?_map, List.getElem?_map, List.getElem?_set_ne here]

theorem Consumed.readInto (after : Consumed sink bufs metas state consumed receiving) {buffer : Bytes}
    (slot : receiving.bufs[receiving.filled]? = some buffer) (datagram : Bytes) (addr : SocketAddr) :
    ReadInto bufs (datagram, addr) (datagram.take buffer.length, addr) := by
  have size : buffer.length ∈ bufs.map List.length := by
    rw [← after.sizes]
    exact List.mem_map_of_mem (List.mem_of_getElem? slot)
  obtain ⟨original, member, same⟩ := List.mem_map.mp size
  exact ⟨rfl, original, member, by rw [same]⟩

theorem Consumed.receive (after : Consumed sink bufs metas state consumed receiving)
    (free : receiving.filled < receiving.bufs.length) (datagram : Bytes) (addr : SocketAddr) :
    (receiving.receive sink datagram addr = none ∧ metas.length < bufs.length) ∨
    ∃ read next, receiving.receive sink datagram addr = some next ∧
      ReadInto bufs (datagram, addr) read ∧ Consumed sink bufs metas state (consumed ++ [read]) next := by
  obtain ⟨buffer, slot⟩ : ∃ buffer, receiving.bufs[receiving.filled]? = some buffer :=
    ⟨_, List.getElem?_eq_getElem free⟩
  obtain ⟨read, taken⟩ : ∃ read, datagram.take buffer.length = read := ⟨_, rfl⟩
  have into : ReadInto bufs (datagram, addr) (read, addr) := taken ▸ after.readInto slot datagram addr
  have written : (read ++ buffer.drop read.length).length = buffer.length := by
    rw [List.length_append, List.length_drop, ← taken, List.length_take]
    omega
  have quic := quicDatagrams_append consumed (read, addr)
  have windows := preambleWindows_append consumed (read, addr)
  have count := after.count
  rw [receive_eq sink receiving addr slot taken, demultiplex_eq]
  cases marked : isPreamble read with
  | true =>
      rw [if_pos marked] at quic
      refine Or.inr ⟨_, _, rfl, into, ?_⟩
      exact
        { sizes := after.rewrite slot written
          described := after.described
          filled := by rw [quic, after.filled]
          room := after.room
          holds := by
            rw [quic]
            exact after.holds.scratch after.filled _ _
          state := by rw [windows, sinkAll_append, after.state] }
  | false =>
      rw [if_neg (by simp [marked])] at quic
      by_cases room : receiving.filled < receiving.metas.length
      · have silent := decodedWindow_quic marked
        refine Or.inr ⟨_, _, if_pos room, into, ?_⟩
        exact
          { sizes := after.rewrite slot written
            described := by rw [List.length_set, after.described]
            filled := by rw [quic, List.length_append, List.length_singleton, after.filled]
            room := by
              rw [← count]
              exact free
            holds := by
              rw [quic]
              exact after.holds.push after.filled free room List.take_left
            state := by rw [windows, silent, Option.toList_none, List.append_nil, after.state] }
      · have described := after.described
        exact Or.inl ⟨if_neg room, by omega⟩

/-- Ready counts the filled buffers; nothing is filled when the loop ends otherwise. -/
def Reports (filled : Nat) : Polled IoError → Prop
  | .ready n => n = filled
  | .error _ => filled = 0
  | .pending => filled = 0
  | .panicked => False
  | .polling => True

theorem leave_reports (receiving : Receiving SocketAddr IpAddr State) (polled : Polled IoError)
    (empty : receiving.filled = 0 → Reports receiving.filled polled) :
    Reports receiving.filled (receiving.leave polled) := by
  rw [Receiving.leave]
  split
  · rfl
  · exact empty (by omega)

/-- The reads are those of the answers used, in order. -/
theorem pollLoop_consumed (outcomes : List (SocketOutcome SocketAddr IoError))
    (after : Consumed sink bufs metas state consumed receiving) :
    ((pollLoop sink outcomes receiving).1 = .panicked ∧ metas.length < bufs.length) ∨
    ∃ used reads, outcomes = used ++ (pollLoop sink outcomes receiving).2.2 ∧
      List.Forall₂ (ReadInto bufs) (arrivals used) reads ∧
      Consumed sink bufs metas state (consumed ++ reads) (pollLoop sink outcomes receiving).2.1 ∧
      Reports (pollLoop sink outcomes receiving).2.1.filled (pollLoop sink outcomes receiving).1 := by
  have stays : Consumed sink bufs metas state (consumed ++ []) receiving := by
    rwa [List.append_nil]
  induction outcomes generalizing consumed receiving with
  | nil =>
      rw [pollLoop.eq_def]
      split
      · exact Or.inr ⟨[], [], rfl, List.Forall₂.nil, stays, rfl⟩
      · exact Or.inr ⟨[], [], rfl, List.Forall₂.nil, stays, trivial⟩
  | cons outcome rest ih =>
      rw [pollLoop.eq_def]
      split
      · exact Or.inr ⟨[], [], rfl, List.Forall₂.nil, stays, rfl⟩
      · rename_i free
        cases outcome with
        | readyError e =>
            exact Or.inr ⟨[.readyError e], [], rfl, List.Forall₂.nil, stays, leave_reports _ _ id⟩
        | pending => exact Or.inr ⟨[.pending], [], rfl, List.Forall₂.nil, stays, leave_reports _ _ id⟩
        | recvError e =>
            exact Or.inr ⟨[.recvError e], [], rfl, List.Forall₂.nil, stays, leave_reports _ _ id⟩
        | wouldBlock =>
            dsimp only
            split
            · exact Or.inr ⟨[.wouldBlock], [], rfl, List.Forall₂.nil, stays, rfl⟩
            · rcases ih after stays with panicked | ⟨used, reads, split, read, later, reports⟩
              · exact Or.inl panicked
              · exact Or.inr ⟨.wouldBlock :: used, reads, congrArg _ split, read, later, reports⟩
        | received datagram addr =>
            dsimp only
            rcases after.receive (Nat.lt_of_not_ge free) datagram addr with
              ⟨panicked, short⟩ | ⟨read, next, received, into, after⟩
            · rw [panicked]
              exact Or.inl ⟨rfl, short⟩
            · rw [received]
              dsimp only
              rcases ih after (by rwa [List.append_nil]) with
                panicked | ⟨used, reads, split, others, later, reports⟩
              · exact Or.inl panicked
              · refine Or.inr ⟨.received datagram addr :: used, read :: reads, congrArg _ split,
                  List.Forall₂.cons into others, ?_, reports⟩
                rwa [List.append_assoc, List.singleton_append] at later

end Step

/-- Answers on which the loop returns whatever it has. -/
def SocketOutcome.Ends : SocketOutcome SocketAddr IoError → Prop
  | .readyError _ => True
  | .pending => True
  | .received _ _ => False
  | .wouldBlock => False
  | .recvError _ => True

theorem leave_ne_polling (receiving : Receiving SocketAddr IpAddr State) {polled : Polled IoError}
    (ended : polled ≠ .polling) : receiving.leave polled ≠ .polling := by
  rw [Receiving.leave]
  split
  · simp
  · exact ended

/-- The loop does not read past a pending or an error. -/
theorem pollLoop_returns (sink : Option (CommitSink State)) (outcomes : List (SocketOutcome SocketAddr IoError))
    (receiving : Receiving SocketAddr IpAddr State) (ends : ∃ outcome ∈ outcomes, outcome.Ends) :
    (pollLoop sink outcomes receiving).1 ≠ .polling := by
  induction outcomes generalizing receiving with
  | nil => simp at ends
  | cons outcome rest ih =>
      rw [pollLoop.eq_def]
      split
      · simp
      · cases outcome with
        | readyError e => exact leave_ne_polling receiving (by simp)
        | pending => exact leave_ne_polling receiving (by simp)
        | recvError e => exact leave_ne_polling receiving (by simp)
        | wouldBlock =>
            have later : ∃ outcome ∈ rest, outcome.Ends := by simpa [SocketOutcome.Ends] using ends
            dsimp only
            split
            · simp
            · exact ih receiving later
        | received datagram addr =>
            have later : ∃ outcome ∈ rest, outcome.Ends := by simpa [SocketOutcome.Ends] using ends
            dsimp only
            cases receiving.receive sink datagram addr with
            | none => simp
            | some next => exact ih next later

theorem reads_whole {bufs : List Bytes} {sent reads : List (Arrival SocketAddr)}
    (read : List.Forall₂ (ReadInto bufs) sent reads)
    (fit : ∀ arrival ∈ sent, ∀ buffer ∈ bufs, arrival.1.length ≤ buffer.length) : reads = sent := by
  induction read with
  | nil => rfl
  | @cons arrival first sent reads into others ih =>
      obtain ⟨addr, buffer, member, taken⟩ := into
      have whole := fit arrival List.mem_cons_self buffer member
      rw [List.take_of_length_le whole] at taken
      rw [ih fun later among => fit later (List.mem_cons_of_mem arrival among)]
      exact congrArg (· :: sent) (Prod.ext taken addr)

/-- Whatever the socket answers, `poll_recv` hands QUIC the datagrams that are not
preambles and the sink the windows of those that are, in order of arrival; it ends
in a pending or an error only with nothing to hand over. Only a meta slice shorter
than the buffers can make it panic. A packet that is not a preamble is none under
header protection. -/
theorem poll_recv_demultiplexes :
    (∀ (sink : Option (CommitSink State)) (outcomes : List (SocketOutcome SocketAddr IoError))
      (bufs : List Bytes) (metas : List (RecvMeta SocketAddr IpAddr)) (state : State) (polled : Polled IoError)
      (receiving : Receiving SocketAddr IpAddr State) (rest : List (SocketOutcome SocketAddr IoError)),
      pollRecv sink outcomes bufs metas state = (polled, receiving, rest) →
      (polled = .panicked ∧ metas.length < bufs.length) ∨
      ∃ used consumed, outcomes = used ++ rest ∧
        List.Forall₂ (ReadInto bufs) (arrivals used) consumed ∧
        ((∀ arrival ∈ arrivals used, ∀ buffer ∈ bufs, arrival.1.length ≤ buffer.length) →
          consumed = arrivals used) ∧
        (∀ n, polled = .ready n → n = (quicDatagrams consumed).length ∧ n ≤ bufs.length ∧
          HoldsAll receiving (quicDatagrams consumed)) ∧
        ((polled = .pending ∨ ∃ e, polled = .error e) → quicDatagrams consumed = []) ∧
        receiving.state = sinkAll sink (preambleWindows consumed) state) ∧
    ∀ [Aes128] (key : Aes128EcbHeaderKey) (pnOffset : Nat) (first : UInt8) (rest protectedPacket : Bytes),
      0 < pnOffset → first &&& 0x80 ≠ 0 ∨ first &&& 0x40 ≠ 0 →
      encrypt key pnOffset (first :: rest) = some protectedPacket → isPreamble protectedPacket = false := by
  constructor
  · intro sink outcomes bufs metas state polled receiving rest ended
    have tracked := pollLoop_consumed outcomes (consumed_start sink bufs metas state)
    rw [pollRecv] at ended
    rw [ended] at tracked
    rcases tracked with panicked | ⟨used, reads, split, read, after, reports⟩
    · exact Or.inl panicked
    · refine Or.inr ⟨used, reads, split, read, reads_whole read, ?_, ?_, after.state⟩
      · rintro n rfl
        exact ⟨reports.trans after.filled, reports ▸ after.room, after.holds⟩
      · rintro (rfl | ⟨e, rfl⟩)
        · exact List.eq_nil_of_length_eq_zero (after.filled.symm.trans reports)
        · exact List.eq_nil_of_length_eq_zero (after.filled.symm.trans reports)
  · intro aes key pnOffset first rest protectedPacket behind fixedBits encrypted
    exact isPreamble_quic (parsePreamble_encrypt behind fixedBits encrypted)

end Specification

/-- An empty datagram, a malformed preamble and a short packet, then an error. -/
example :
    let blank : RecvMeta Nat Unit := { addr := 0, len := 9, stride := 9, ecn := none, dstIp := none }
    let ended := pollRecv (some fun window windows => windows ++ [window])
      [.wouldBlock, .received [] 1, .received [0x00, 7] 2, .received [0x40, 7] 3, .recvError ()]
      [[9, 9], [9, 9], [9, 9]] [blank, blank, blank] []
    ended.1 = .ready 2 ∧ ended.2.1.bufs = [[9, 9], [0x40, 7], [9, 9]] ∧ ended.2.1.state = [] ∧
      (ended.2.1.metas.map fun described => (described.addr, described.len)) = [(1, 0), (3, 2), (0, 9)] := by
  decide +kernel

/-! The header of the packet with the known vector in the source's tests. -/

def knownKey : Aes128EcbHeaderKey where
  key := #v[0x0B, 0xC5, 0xF8, 0x81, 0x88, 0xAC, 0x85, 0xAF, 0xCF, 0x90, 0xA6, 0x06, 0x1E, 0xA2, 0xC5, 0x9E]

/-- The block AES makes of the sample of the packet. -/
@[reducible] def knownMask : Aes128 where
  encryptBlock := fun _ _ i =>
    let block : Bytes :=
      [0x28, 0xBE, 0x04, 0x9D, 0x19, 0x77, 0x39, 0x65, 0xA9, 0xB0, 0xFB, 0x4C, 0x4D, 0x73, 0x8C, 0x1E]
    block.getD i 0

def knownRest : Bytes :=
  [0x00, 0x00, 0x00, 0x01, 0x08, 0x06, 0xB8, 0x58, 0xEC, 0x6F, 0x80, 0x45, 0x2B, 0x00, 0x00, 0x40, 0x21,
   0x00, 0x3E, 0xF5, 0x08, 0x07, 0xB8, 0x41, 0x91, 0xA1, 0x96, 0xF7, 0x60, 0xA6, 0xDA, 0xD1, 0xE9, 0xD1,
   0xC4, 0x30, 0xC4, 0x89, 0x52, 0xCB, 0xA0, 0x14, 0x82, 0x50, 0xC2, 0x1C, 0x0A, 0x6A, 0x70, 0xE1]

section KnownVector
attribute [local instance] knownMask

theorem poll_recv_demultiplexes_known_vector :
    encrypt knownKey 18 (0xC0 :: knownRest) = some (0xC8 :: knownRest.set 17 0xBE) ∧
      isPreamble (0xC8 :: knownRest.set 17 0xBE) = false := by
  have vector : encrypt knownKey 18 (0xC0 :: knownRest) = some (0xC8 :: knownRest.set 17 0xBE) := by
    decide +kernel
  have passed := (@poll_recv_demultiplexes Nat Nat Nat Nat).2
  exact ⟨vector, passed knownKey 18 0xC0 _ _ (by decide) (by decide) vector⟩

end KnownVector

end QuicMls.PollRecv
