import Kalinka.App.HttpStreamer.ConThread
import Kalinka.Common.Snmp.Protocol
import Kalinka.Lib.Chunked

/-!
# The body of a connection

`ConnectThread::processData` takes one portion after another out of `m_data`, and `sendData` gives
each to the socket: in a chunk for a client of HTTP/1.1, and else as it is.  The size in front of a
chunk is that of the data as a `u_int`, and `Socket::send` throws where one `send` of the system
cannot take a portion.

`throughout_streams_iff` says exactly which runs give the client the portions that were dequeued.
-/

namespace Kalinka.Http

open Run Chunked

/-! ## Sending -/

/-- What `sendData` gives to `m_sock->send`, one after another. -/
def sendData (version : HTTPVersion) (data : BinaryData) : List BinaryData :=
  (if data = [] ∧ version = .http11 then [hex 0 ++ crlf ++ crlf] else []) ++
    if version = .http11 then [hex (data.length % UInt32.size) ++ crlf, data, crlf] else [data]

/-- What the calls of `Socket::send` put out, and whether none of them throws.  Where the system
does not take a chunk whole, it takes `maxRwCount` bytes of it. -/
def sendPieces (sndbuf : ℕ) : List BinaryData → BinaryData × Bool
  | [] => ([], true)
  | piece :: pieces =>
    match Snmp.send sndbuf piece with
    | some bytes => (bytes ++ (sendPieces sndbuf pieces).1, (sendPieces sndbuf pieces).2)
    | none => (piece.take Snmp.maxRwCount, false)

/-- The data that the next step of `processData` takes out of `m_data`. -/
def ConnectThread.dequeued (t : ConnectThread) : Option BinaryData :=
  match t.pc, t.mData with
  | .send, data :: _ => some data
  | _, _ => none

/-! ## The client -/

structure ClientStream where
  thread : ConnectThread := {}
  /-- what the client gets behind the response -/
  body : BinaryData := []
  /-- the network has broken a send -/
  cut : Bool := false

inductive ClientAction
  | connect (a : ConnectAction)
  /-- `processData` takes data out of `m_data`, and the network breaks the send behind `n` bytes -/
  | cut (n : ℕ)

namespace ClientStream

/-- The data is out of `m_data`, and `sendData` has put out `bytes`; unless all went well, there was
an exception. -/
def send (c : ClientStream) (thread : ConnectThread) (bytes : BinaryData) (ok : Bool) :
    ClientStream :=
  { c with
    thread := if ok then thread else { thread with pc := .closing }
    body := c.body ++ bytes }

def step (sndbuf : ℕ) (c : ClientStream) : ClientAction → Option ClientStream
  -- `InThread::doLoopAction` asserts that there is data
  | .connect (.addData path data now) =>
    if data = [] then none
    else (c.thread.step (.addData path data now)).map fun thread => { c with thread := thread }
  | .connect .processData =>
    (c.thread.step .processData).map fun thread =>
      match c.thread.dequeued with
      | some data =>
        let out := sendPieces sndbuf (sendData c.thread.mHttpVersion data)
        c.send thread out.1 out.2
      | none => { c with thread := thread }
  | .connect a => (c.thread.step a).map fun thread => { c with thread := thread }
  | .cut n =>
    match c.thread.dequeued with
    | some data =>
      (c.thread.step .processData).map fun thread =>
        let out := sendPieces sndbuf (sendData c.thread.mHttpVersion data)
        { c.send thread (out.1.take n) false with cut := true }
    | none => none

/-- The client decodes the body to the data, and the body goes on. -/
def Whole (version : HTTPVersion) (body data : BinaryData) : Prop :=
  if version = .http11 then decode body = { out := data } else body = data

/-- The client decodes the body to a part of the data, and has not seen a last chunk. -/
def Part (version : HTTPVersion) (body data : BinaryData) : Prop :=
  if version = .http11 then (decode body).out <+: data ∧ (decode body).state ≠ .closed
  else body <+: data

/-- The client gets what was dequeued, and this is in order what was accepted. -/
structure Streams (c : ClientStream) : Prop where
  fifo : c.thread.sent ++ c.thread.mData = c.thread.accepted.flatMap Item.toList
  whole : c.cut = false → Whole c.thread.mHttpVersion c.body c.thread.sent.flatten
  /-- Where the network has broken a send, the client has a part. -/
  part : c.cut = true → (∀ data ∈ c.thread.sent, data.length < UInt32.size) →
    Part c.thread.mHttpVersion c.body c.thread.sent.flatten

/-- The condition under which a step keeps that: the data that is dequeued is such that the system
takes it in chunks of the size that `Socket::send` makes. -/
def SendOk (sndbuf : ℕ) (c : ClientStream) (a : ClientAction) : Prop :=
  ∀ data, a = .connect .processData → c.thread.dequeued = some data →
    min data.length (Snmp.chunkSize sndbuf data.length) ≤ Snmp.maxRwCount

end ClientStream

variable {sndbuf : ℕ} {t t' : ConnectThread} {b : ConnectAction}
variable {version : HTTPVersion} {data new body bytes : BinaryData} {n : ℕ}

/-! ## The thread -/

theorem ConnectPc.left_of_inData {pc : ConnectPc} (h : pc.inData = true) : pc.left = false := by
  cases pc <;> simp_all [inData, left]

namespace ConnectThread

theorem step_of_dequeued (h : t.dequeued = some data) : t.pc = .send ∧ ∃ rest,
    t.mData = data :: rest ∧
      t.step .processData = some { t with mData := rest, sent := t.sent ++ [data] } := by
  unfold dequeued at h
  split at h
  · rename_i first rest hpc hdata
    obtain rfl := Option.some.inj h
    refine ⟨hpc, rest, hdata, ?_⟩
    simp only [step, hpc, hdata]
  · cases h

theorem dequeued_of_send {rest : DataList} (hpc : t.pc = .send) (hdata : t.mData = data :: rest) :
    t.dequeued = some data := by
  rw [dequeued, hpc, hdata]

/-- What a step changes that takes nothing out of `m_data`. -/
theorem step_frame (hs : t.step b = some t') (hb : b = .processData → t.dequeued = none) :
    t'.sent = t.sent ∧ (t.pc ≠ .request → t'.mHttpVersion = t.mHttpVersion) ∧
      (t'.adding = t.adding ∨ t'.adding = none ∨
        ∃ path data now, b = .addData path data now ∧ t'.adding = some data) := by
  obtain ⟨-, hquiet | ⟨header, i, -, -, rfl⟩ | ⟨data, -, -, rfl⟩⟩ := step_cases hs
  · refine ⟨hquiet.sent.resolve_right ?_, fun hpc => (hquiet.request (.inl hpc)).2.2,
      hquiet.adding.imp_right ?_⟩
    · rintro ⟨data, rest, rfl, hpc, hdata⟩
      have hnone := hb rfl
      rw [dequeued_of_send hpc hdata] at hnone
      cases hnone
    · rintro ⟨data, now, rfl, -, hadding⟩
      exact .inr ⟨_, data, now, rfl, hadding⟩
  · exact ⟨rfl, fun _ => rfl, .inl rfl⟩
  · exact ⟨rfl, fun _ => rfl, .inr (.inl rfl)⟩

theorem Moves.left_of_left {pc pc' : ConnectPc} (h : Moves b pc pc') (hpc : pc.left = true) :
    pc'.left = true := by
  cases h with
  | stays => exact hpc
  | goesOn _ hin =>
    rw [ConnectPc.left_of_inData hin] at hpc
    cases hpc
  | closes _ hleft => rfl
  | leaves | unknown | left => rfl
  | parsed | found | counted | answered | headed => cases hpc

end ConnectThread

/-! ## One portion -/

theorem send_of_le (h : data.length ≤ Snmp.maxRwCount) : Snmp.send sndbuf data = some data :=
  if_pos (Nat.le_trans (Nat.min_le_left _ _) h)

theorem length_head_le (n : ℕ) :
    (hex (n % UInt32.size) ++ crlf).length ≤ Snmp.maxRwCount := by
  have hlt : n % UInt32.size < 16 ^ 8 := Nat.mod_lt n (by decide)
  have hhex := length_hex_le (by decide) hlt
  rw [List.length_append]
  exact Nat.le_trans (Nat.add_le_add_right hhex _) (by decide)

/-- How a portion stands in the body. -/
def framed (version : HTTPVersion) (data : BinaryData) : BinaryData :=
  if version = .http11 then chunk data else data

theorem sendPieces_of_some (hdata : data ≠ []) (h : Snmp.send sndbuf data = some data) :
    sendPieces sndbuf (sendData version data) = (framed version data, true) := by
  have hlt := (Snmp.of_send_eq_some h).2
  by_cases hversion : version = .http11
  · have hhead : Snmp.send sndbuf (hex (data.length % UInt32.size) ++ crlf) = some _ :=
      send_of_le (length_head_le data.length)
    have hcrlf : Snmp.send sndbuf crlf = some crlf := send_of_le (by decide)
    rw [Nat.mod_eq_of_lt hlt] at hhead
    simp [sendData, framed, hdata, hversion, sendPieces, hhead, h, hcrlf, chunk,
      Nat.mod_eq_of_lt hlt]
  · simp [sendData, framed, hdata, hversion, sendPieces, h]

/-- What is put out of a portion that the system does not take. -/
theorem sendPieces_of_none (hdata : data ≠ []) (h : Snmp.send sndbuf data = none) :
    sendPieces sndbuf (sendData version data) =
      (if version = .http11 then
        hex (data.length % UInt32.size) ++ crlf ++ data.take Snmp.maxRwCount
      else data.take Snmp.maxRwCount, false) := by
  by_cases hversion : version = .http11
  · have hhead : Snmp.send sndbuf (hex (data.length % UInt32.size) ++ crlf) = some _ :=
      send_of_le (length_head_le data.length)
    simp only [sendData, hdata, hversion, false_and, if_false, if_true, List.nil_append,
      sendPieces, hhead, h]
  · simp [sendData, hdata, hversion, sendPieces, h]

/-- Below 4 GiB, nothing but the portion is put out, even if not all of it. -/
theorem framed_extends_sendPieces (hdata : data ≠ []) (hlt : data.length < UInt32.size) :
    (sendPieces sndbuf (sendData version data)).1 <+: framed version data := by
  cases h : Snmp.send sndbuf data with
  | some a =>
    obtain rfl := (Snmp.of_send_eq_some h).1
    exact ⟨[], by rw [sendPieces_of_some hdata h, List.append_nil]⟩
  | none =>
    rw [sendPieces_of_none hdata h, framed, Nat.mod_eq_of_lt hlt]
    split
    · rw [chunk, List.append_assoc _ data]
      apply (List.prefix_append_right_inj _).2
      exact (List.take_prefix _ _).trans (List.prefix_append _ _)
    · exact List.take_prefix _ _

namespace ClientStream

theorem whole_nil (version : HTTPVersion) : Whole version [] [] := by
  unfold Whole
  split <;> rfl

theorem Whole.append (h : Whole version body data) (hnew : new ≠ []) :
    Whole version (body ++ framed version new) (data ++ new) := by
  unfold Whole framed at *
  split
  · rename_i hversion
    rw [if_pos hversion] at h
    rw [decode_append, h, run_chunk hnew]
  · rename_i hversion
    rw [if_neg hversion] at h
    rw [h]

theorem Whole.part_append (h : Whole version body data) (hnew : new ≠ [])
    (hbytes : bytes <+: framed version new) : Part version (body ++ bytes) (data ++ new) := by
  unfold Whole at h
  unfold framed at hbytes
  unfold Part
  split
  · rename_i hversion
    rw [if_pos hversion] at h hbytes
    obtain ⟨hout, hstate⟩ := run_of_prefix (d := { out := data }) hbytes
    rw [run_chunk hnew] at hout hstate
    rw [decode_append, h]
    exact ⟨hout, hstate nofun⟩
  · rename_i hversion
    rw [if_neg hversion] at h hbytes
    rw [h]
    exact (List.prefix_append_right_inj _).2 hbytes

/-- A portion that the system does not take is not there, whatever its size. -/
theorem Whole.not_append (h : Whole version body data) (hnew : new ≠ [])
    (hnone : Snmp.send sndbuf new = none) :
    ¬Whole version (body ++ (sendPieces sndbuf (sendData version new)).1) (data ++ new) := by
  have hlong : Snmp.maxRwCount < new.length := by
    have hmin : ¬min new.length (Snmp.chunkSize sndbuf new.length) ≤ Snmp.maxRwCount := by
      intro hle
      rw [Snmp.send, if_pos hle] at hnone
      cases hnone
    exact Nat.lt_of_lt_of_le (Nat.not_le.1 hmin) (Nat.min_le_left _ _)
  rw [sendPieces_of_none hnew hnone]
  unfold Whole at *
  split
  · rename_i hversion
    rw [if_pos hversion] at h
    intro hwhole
    rw [decode_append, h, run_append, run_size] at hwhole
    have hle := length_out_run_le ⟨data, .sized (new.length % UInt32.size)⟩
      (new.take Snmp.maxRwCount)
    rw [hwhole, List.length_append, List.length_take] at hle
    dsimp only at hle
    omega
  · rename_i hversion
    rw [if_neg hversion] at h
    rw [h, List.append_cancel_left_eq]
    intro htake
    have hlen := congrArg List.length htake
    rw [List.length_take] at hlen
    omega

/-! ## The steps -/

variable {c c' : ClientStream} {a : ClientAction}

/-- `processData` has taken `data` out of `m_data`. -/
def pop (t : ConnectThread) (data : BinaryData) : ConnectThread :=
  { t with mData := t.mData.tail, sent := t.sent ++ [data] }

theorem version_send (c : ClientStream) (data bytes : BinaryData) (ok : Bool) :
    (c.send (pop c.thread data) bytes ok).thread.mHttpVersion = c.thread.mHttpVersion := by
  cases ok <;> rfl

theorem flatten_sent_send (c : ClientStream) (data bytes : BinaryData) (ok : Bool) :
    (c.send (pop c.thread data) bytes ok).thread.sent.flatten =
      c.thread.sent.flatten ++ data := by
  cases ok <;> simp [send, pop]

/-- What a step can do: a step of the thread that takes nothing out of `m_data`, or a send, which
the network may break. -/
inductive Steps (sndbuf : ℕ) (c : ClientStream) : ClientAction → ClientStream → Prop
  | quiet {b : ConnectAction} {thread : ConnectThread} (hs : c.thread.step b = some thread)
      (hnone : b = .processData → c.thread.dequeued = none)
      (hdata : ∀ path now, b ≠ .addData path [] now) :
      Steps sndbuf c (.connect b) { c with thread := thread }
  | sends {data : BinaryData} {out : BinaryData × Bool}
      (hdequeued : c.thread.dequeued = some data)
      (hout : sendPieces sndbuf (sendData c.thread.mHttpVersion data) = out) :
      Steps sndbuf c (.connect .processData) (c.send (pop c.thread data) out.1 out.2)
  | cuts {data bytes : BinaryData} (n : ℕ) (hdequeued : c.thread.dequeued = some data)
      (hbytes : bytes <+: (sendPieces sndbuf (sendData c.thread.mHttpVersion data)).1) :
      Steps sndbuf c (.cut n) { c.send (pop c.thread data) bytes false with cut := true }

theorem step_cases (hs : c.step sndbuf a = some c') : Steps sndbuf c a c' := by
  unfold step at hs
  split at hs
  · rename_i path data now
    obtain ⟨hdata, hs⟩ := Option.ite_none_left_eq_some.1 hs
    obtain ⟨thread, hthread, rfl⟩ := Option.map_eq_some_iff.1 hs
    refine .quiet hthread nofun fun path' now' heq => hdata ?_
    cases heq
    rfl
  · obtain ⟨thread, hthread, heq⟩ := Option.map_eq_some_iff.1 hs
    split at heq
    · rename_i data hdequeued
      obtain ⟨-, rest, hmData, hpop⟩ := ConnectThread.step_of_dequeued hdequeued
      obtain rfl := Option.some.inj (hpop.symm.trans hthread)
      subst heq
      have hrest : rest = c.thread.mData.tail := by rw [hmData, List.tail_cons]
      rw [hrest]
      exact .sends hdequeued rfl
    · rename_i hnone
      subst heq
      exact .quiet hthread (fun _ => hnone) nofun
  · rename_i b hadd hprocess
    obtain ⟨thread, hthread, rfl⟩ := Option.map_eq_some_iff.1 hs
    exact .quiet hthread (fun heq => (hprocess heq).elim) fun path now heq => (hadd _ _ _ heq).elim
  · rename_i n
    split at hs
    · rename_i data hdequeued
      obtain ⟨thread, hthread, rfl⟩ := Option.map_eq_some_iff.1 hs
      obtain ⟨-, rest, hmData, hpop⟩ := ConnectThread.step_of_dequeued hdequeued
      obtain rfl := Option.some.inj (hpop.symm.trans hthread)
      have hrest : rest = c.thread.mData.tail := by rw [hmData, List.tail_cons]
      rw [hrest]
      exact .cuts n hdequeued (List.take_prefix _ _)
    · cases hs

/-! ## What holds in every run -/

structure Inv (c : ClientStream) : Prop where
  logged : c.thread.Logged
  /-- there is data in everything that is accepted -/
  filled : [] ∉ c.thread.accepted.flatMap Item.toList
  adding : c.thread.adding ≠ some []
  /-- nothing is sent before the version is known -/
  start : c.thread.pc = .request → c.body = [] ∧ c.thread.sent = []
  leaves : c.cut = true → c.thread.pc.left = true

theorem Inv.ne_nil (h : c.Inv) (hdequeued : c.thread.dequeued = some data) : data ≠ [] := by
  obtain ⟨-, rest, hmData, -⟩ := ConnectThread.step_of_dequeued hdequeued
  rintro rfl
  apply h.filled
  rw [← h.logged.fifo, hmData]
  exact List.mem_append_right _ List.mem_cons_self

theorem Inv.not_cut (h : c.Inv) (hdequeued : c.thread.dequeued = some data) : c.cut = false := by
  obtain ⟨hpc, -⟩ := ConnectThread.step_of_dequeued hdequeued
  apply Bool.eq_false_iff.2
  intro hcut
  have hleft := h.leaves hcut
  rw [hpc] at hleft
  cases hleft

/-- The invariant does not depend on what is put out. -/
theorem Inv.send (h : c.Inv) (hdequeued : c.thread.dequeued = some data) (ok : Bool) :
    (c.send (pop c.thread data) bytes ok).Inv := by
  obtain ⟨hpc, rest, hmData, hpop⟩ := ConnectThread.step_of_dequeued hdequeued
  have hthread : c.thread.step .processData = some (pop c.thread data) := by
    rw [hpop, pop, hmData, List.tail_cons]
  have hlogged := h.logged.step hthread
  have hcut := h.not_cut hdequeued
  cases ok with
  | true =>
    refine ⟨hlogged, h.filled, h.adding, fun hrequest => ?_, fun hc => ?_⟩
    · have hcontra : ConnectPc.send = .request := hpc.symm.trans hrequest
      cases hcontra
    · cases hcut.symm.trans hc
  | false =>
    exact ⟨⟨hlogged.fifo, hlogged.headed, nofun⟩, h.filled, h.adding, nofun, fun _ => rfl⟩

theorem nil_not_mem_header (header : BinaryData) : [] ∉ (Item.header header).toList := by
  rw [Item.toList]
  split
  · exact List.not_mem_nil
  · rename_i hheader
    exact fun hmem => hheader (List.mem_singleton.1 hmem).symm

theorem filled_step (h : c.Inv) (hs : c.thread.step b = some t) :
    [] ∉ t.accepted.flatMap Item.toList := by
  obtain ⟨-, hquiet | ⟨header, -, -, -, rfl⟩ | ⟨data, -, hadding, rfl⟩⟩ :=
    ConnectThread.step_cases hs
  · rw [hquiet.accepted]
    exact h.filled
  · rw [ConnectThread.pushHeader, List.flatMap_append, List.flatMap_singleton, List.mem_append]
    exact not_or.2 ⟨h.filled, nil_not_mem_header header⟩
  · rw [ConnectThread.push, List.flatMap_append, List.flatMap_singleton, List.mem_append]
    refine not_or.2 ⟨h.filled, fun hmem => h.adding ?_⟩
    rw [hadding, List.mem_singleton.1 hmem]

theorem Inv.step (h : c.Inv) (hs : c.step sndbuf a = some c') : c'.Inv := by
  cases step_cases hs with
  | @quiet b thread hb hnone hdata =>
    obtain ⟨hsent, -, hadding⟩ := ConnectThread.step_frame hb hnone
    obtain ⟨hmoves, -⟩ := ConnectThread.step_cases hb
    refine ⟨h.logged.step hb, filled_step h hb, ?_, fun hrequest => ?_, fun hcut => ?_⟩
    · obtain heq | heq | ⟨path, data, now, rfl, heq⟩ := hadding
      · exact heq ▸ h.adding
      · exact heq ▸ nofun
      · rw [heq]
        intro hnil
        obtain rfl := Option.some.inj hnil
        exact hdata path now rfl
    · change thread.pc = .request at hrequest
      rw [hrequest] at hmoves
      obtain ⟨hbody, hnil⟩ := h.start hmoves.request
      exact ⟨hbody, hsent.trans hnil⟩
    · exact hmoves.left_of_left (h.leaves hcut)
  | sends hdequeued _ => exact h.send hdequeued _
  | cuts n hdequeued hbytes =>
    obtain ⟨hlogged, hfilled, hadding, hstart, -⟩ := h.send hdequeued false
    exact ⟨hlogged, hfilled, hadding, hstart, fun _ => rfl⟩

/-! ## The portions -/

/-- A step that takes nothing out of `m_data` leaves the client what it has. -/
theorem Streams.quiet {thread : ConnectThread} (h : c.Streams) (hinv : c.Inv)
    (hs : c.thread.step b = some thread) (hnone : b = .processData → c.thread.dequeued = none)
    (hfifo : thread.sent ++ thread.mData = thread.accepted.flatMap Item.toList) :
    ({ c with thread := thread } : ClientStream).Streams := by
  obtain ⟨hsent, hversion, -⟩ := ConnectThread.step_frame hs hnone
  refine ⟨hfifo, fun hcut => ?_, fun hcut hshort => ?_⟩
  · change Whole thread.mHttpVersion c.body thread.sent.flatten
    rw [hsent]
    by_cases hpc : c.thread.pc = .request
    · obtain ⟨hbody, hnil⟩ := hinv.start hpc
      rw [hbody, hnil]
      exact whole_nil _
    · rw [hversion hpc]
      exact h.whole hcut
  · have hpc : c.thread.pc ≠ .request := by
      intro hpc
      have hleft := hinv.leaves hcut
      rw [hpc] at hleft
      cases hleft
    change Part thread.mHttpVersion c.body thread.sent.flatten
    change ∀ data ∈ thread.sent, data.length < UInt32.size at hshort
    rw [hsent] at hshort ⊢
    rw [hversion hpc]
    exact h.part hcut hshort

theorem sendOk_iff (hdequeued : c.thread.dequeued = some data) :
    SendOk sndbuf c (.connect .processData) ↔ Snmp.send sndbuf data = some data := by
  have hiff : Snmp.send sndbuf data = some data ↔
      min data.length (Snmp.chunkSize sndbuf data.length) ≤ Snmp.maxRwCount := by
    rw [Snmp.send]
    split
    · rename_i hle
      exact iff_of_true rfl hle
    · rename_i hle
      exact iff_of_false (Option.some_ne_none data).symm hle
  rw [hiff]
  constructor
  · intro hok
    exact hok data rfl hdequeued
  · intro hle data' _ hdata'
    obtain rfl := Option.some.inj (hdequeued.symm.trans hdata')
    exact hle

theorem streams_step_iff (hinv : c.Inv) (h : c.Streams) (hs : c.step sndbuf a = some c') :
    c'.Streams ↔ SendOk sndbuf c a := by
  have hfifo := (hinv.step hs).logged.fifo
  cases step_cases hs with
  | quiet hb hnone hdata =>
    refine iff_of_true (h.quiet hinv hb hnone hfifo) fun data heq hdequeued => ?_
    cases heq
    rw [hnone rfl] at hdequeued
    cases hdequeued
  | @sends data out hdequeued hout =>
    have hne := hinv.ne_nil hdequeued
    have hcut := hinv.not_cut hdequeued
    have hwhole := h.whole hcut
    rw [sendOk_iff hdequeued]
    cases hsend : Snmp.send sndbuf data with
    | some bytes =>
      obtain rfl := (Snmp.of_send_eq_some hsend).1
      rw [sendPieces_of_some hne hsend] at hout
      subst hout
      refine iff_of_true ⟨hfifo, fun _ => ?_, fun hc => by cases hcut.symm.trans hc⟩ rfl
      rw [version_send, flatten_sent_send]
      exact hwhole.append hne
    | none =>
      refine iff_of_false (fun hstreams => ?_) nofun
      have hwhole' := hstreams.whole hcut
      rw [version_send, flatten_sent_send] at hwhole'
      subst hout
      exact hwhole.not_append hne hsend hwhole'
  | @cuts data bytes n hdequeued hbytes =>
    have hne := hinv.ne_nil hdequeued
    refine iff_of_true ⟨hfifo, nofun, fun _ hshort => ?_⟩ nofun
    have hlt : data.length < UInt32.size :=
      hshort data (List.mem_append_right _ List.mem_cons_self)
    change Part (c.send _ bytes false).thread.mHttpVersion _
      (c.send _ bytes false).thread.sent.flatten
    rw [version_send, flatten_sent_send]
    apply (h.whole (hinv.not_cut hdequeued)).part_append hne
    exact hbytes.trans (framed_extends_sendPieces hne hlt)

/-- A client gets the portions that were dequeued, in order and each once, and no last chunk,
exactly in the runs in which `Socket::send` can put out each of them. -/
theorem throughout_streams_iff (sndbuf : ℕ) (as : List ClientAction) :
    Throughout (step sndbuf) Streams {} as ↔ EachStep (step sndbuf) (SendOk sndbuf) {} as :=
  throughout_iff_eachStep Inv.step streams_step_iff
    ⟨⟨rfl, by simp, fun _ => rfl⟩, by simp, nofun, fun _ => ⟨rfl, rfl⟩, nofun⟩
    ⟨rfl, fun _ => whole_nil _, nofun⟩

/-- A client of HTTP/1.1 asks for `/a`, and gets one portion. -/
def onePortion (data : BinaryData) : List ClientAction :=
  List.map .connect [.parseRequest "GET /a HTTP/1.1".toList, .getInThread (some 0),
    .processResponse, .processOK, .pushHeader [], .processData, .addData "/a".toList data 0, .push,
    .wake, .processData]

/-- The thread before the last of these steps. -/
def waiting (data : BinaryData) : ConnectThread :=
  { mPath := "/a".toList
    mData := [data]
    mRequestType := .get
    mResponseType := .ok
    mHttpVersion := .http11
    pc := .send
    headed := true
    accepted := [.header [], .portion data] }

theorem exec_onePortion (sndbuf : ℕ) (b : UInt8) (data : BinaryData) :
    exec (step sndbuf) {} (onePortion (b :: data)) =
      some (send { thread := waiting (b :: data) } (pop (waiting (b :: data)) (b :: data))
        (sendPieces sndbuf (sendData .http11 (b :: data))).1
        (sendPieces sndbuf (sendData .http11 (b :: data))).2) := rfl

theorem send_fourGiB : Snmp.send 212992 (List.replicate UInt32.size 0) = none := by
  rw [Snmp.send, List.length_replicate]
  decide

/-- The size of a portion of 4 GiB is 0 as a `u_int`: its chunk ends the body. -/
theorem fourGiB_ends_body : ∃ c,
    exec (step 212992) {} (onePortion (List.replicate UInt32.size 0)) = some c ∧
      c.thread.sent = [List.replicate UInt32.size 0] ∧ decode c.body = { state := .closed } ∧
      ¬c.Streams := by
  have hcons : List.replicate UInt32.size (0 : UInt8) = 0 :: List.replicate 4294967295 0 := rfl
  have hexec := exec_onePortion 212992 0 (List.replicate 4294967295 0)
  rw [← hcons, sendPieces_of_none (by simp) send_fourGiB, if_pos rfl, List.length_replicate]
    at hexec
  have hbody : decode (hex (UInt32.size % UInt32.size) ++ crlf ++
      (List.replicate UInt32.size 0).take Snmp.maxRwCount) = { state := .closed } := by
    rw [decode, run_append, run_size]
    exact run_of_closed rfl
  refine ⟨_, hexec, rfl, hbody, fun h => ?_⟩
  have hwhole : decode _ = { out := List.flatten _ } := h.whole rfl
  cases congrArg Decoder.state (hbody.symm.trans hwhole)

end ClientStream

end Kalinka.Http
