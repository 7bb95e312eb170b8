import StateSpectre.Lib.Socket
import StateSpectre.Wire.Primitive

/-!
# Frames

Messages are sent over a stream socket in frames: a header of 12 bytes, with the opcode and the
length of the payload, and the payload. Descriptors are sent with the header. Whatever pieces the
bytes arrive in, the frames that were sent are those that are received, and a frame that is cut
short is an error (`frames_received`).
-/

namespace StateSpectre.Wire

open Writer Socket

abbrev Fd : Type := ℤ

/-- What is thrown. -/
inductive FrameError
  | runtimeError (what : String)
  | wireError (e : WireError)
  deriving DecidableEq

/-! ## Headers -/

def rpcMagic : UInt32 := 0x4F465250

def frameHeaderSize : ℕ := 12

/-- The most bytes that a payload is received with. -/
def maxPayload : ℕ := 256 <<< 20

def maxFds : ℕ := 32

structure FrameHeader where
  magic : UInt32
  opcode : UInt16
  flags : UInt16
  payloadLen : UInt32

def FrameHeader.put (h : FrameHeader) : List Field :=
  [.u32 h.magic, .u16 h.opcode, .u16 h.flags, .u32 h.payloadLen]

def makeFrame (op : UInt16) (body : List UInt8) (flags : UInt16) :
    Except WireError (List UInt8) :=
  if body.length > 0xFFFFFFFF then .error ⟨"frame body too large"⟩
  else .ok (write (FrameHeader.put ⟨rpcMagic, op, flags, UInt32.ofNat body.length⟩) ++ body)

/-- The fields of a header, once its magic number is checked. -/
def getFrameHeader : Reader FrameHeader := do
  let magic ← Reader.u32
  if magic ≠ rpcMagic then .fail ⟨"bad frame magic"⟩
  else
    let opcode ← Reader.u16
    let flags ← Reader.u16
    let payloadLen ← Reader.u32
    pure { magic, opcode, flags, payloadLen }

def parseFrameHeader (data : List UInt8) : Except WireError FrameHeader :=
  if data.length < frameHeaderSize then .error ⟨"short frame header"⟩
  else (getFrameHeader.run data).map Prod.fst

theorem length_put (h : FrameHeader) : (write h.put).length = frameHeaderSize := by
  simp [FrameHeader.put, Field.bytes, frameHeaderSize]

theorem parseFrameHeader_put {h : FrameHeader} (hmagic : h.magic = rpcMagic) :
    parseFrameHeader (write h.put) = .ok h := by
  obtain ⟨magic, opcode, flags, payloadLen⟩ := h
  obtain rfl : magic = rpcMagic := hmagic
  have hread : getFrameHeader.Reads (write (FrameHeader.put ⟨rpcMagic, opcode, flags, payloadLen⟩))
      ⟨rpcMagic, opcode, flags, payloadLen⟩ := fun t => by
    simp [getFrameHeader, FrameHeader.put]
  have hrun := hread []
  rw [List.append_nil] at hrun
  rw [parseFrameHeader, if_neg (length_put _).not_lt, hrun]
  rfl

/-! ## Sending -/

/-- What a frame is sent as. Descriptors are sent with the header, and the payload follows; a
    `send` that takes only a part of it is repeated with the rest. -/
def sendFrame (frame : List UInt8) (fds : List Fd) : Except FrameError (Socket Fd) :=
  if h : frame.length < frameHeaderSize then
    .error (.runtimeError "send_frame: frame smaller than header")
  else if fds = [] then
    .ok [.data frame [] (by
      rintro rfl
      exact h (by decide))]
  else if fds.length > maxFds then .error (.runtimeError "too many fds for one frame")
  else
    .ok (.data (frame.take frameHeaderSize) fds (by
        simp only [ne_eq, List.take_eq_nil_iff, not_or]
        refine ⟨by decide, ?_⟩
        rintro rfl
        exact h (by decide)) ::
      if hlong : frame.length > frameHeaderSize then
        [.data (frame.drop frameHeaderSize) [] (List.drop_eq_nil_iff.not.2 hlong.not_ge)]
      else [])

/-! ## Receiving -/

/-- Exactly `len` bytes, or nothing at the end of the stream. -/
def readAll (len : ℕ) (s : Socket Fd) : Except FrameError (Option (List UInt8) × Socket Fd) := do
  let (r, s) ← readLoop (fun reason => FrameError.runtimeError ("recv failed: " ++ reason))
    (.runtimeError "recv EOF mid-message") len [] none s
  return (r.map Prod.fst, s)

/-- The header, with the descriptors that come with it, or nothing at the end of the stream. -/
def recvHeader (s : Socket Fd) :
    Except FrameError (Option (List UInt8 × List Fd) × Socket Fd) :=
  readLoop (fun reason => .runtimeError ("recvmsg failed: " ++ reason))
    (.runtimeError "recvmsg EOF mid-header") frameHeaderSize [] none s

/-- A frame that is received. -/
structure Incoming where
  op : UInt16
  payload : List UInt8
  fds : List Fd

/-- The payload that a header announces. -/
def recvPayload (fh : FrameHeader) (s : Socket Fd) :
    Except FrameError (List UInt8 × Socket Fd) :=
  if fh.payloadLen.toNat > maxPayload then
    .error (.runtimeError "frame payload absurdly large")
  else if fh.payloadLen.toNat > 0 then do
    match ← readAll fh.payloadLen.toNat s with
    | (none, _) => throw (.runtimeError "EOF before payload")
    | (some payload, s) => return (payload, s)
  else .ok ([], s)

/-- The next frame, or nothing if the stream ends here. -/
def recvFrame (s : Socket Fd) : Except FrameError (Option Incoming × Socket Fd) := do
  match ← recvHeader s with
  | (none, s) => return (none, s)
  | (some (hdr, fds), s) =>
    let fh ← (parseFrameHeader hdr).mapError .wireError
    let (payload, s) ← recvPayload fh s
    return (some ⟨fh.opcode, payload, fds⟩, s)

theorem readAll_eq {len : ℕ} {s s' : Socket Fd} {r : Option (List UInt8 × List Fd)}
    (h : readLoop (fun reason => FrameError.runtimeError ("recv failed: " ++ reason))
      (.runtimeError "recv EOF mid-message") len [] none s = .ok (r, s')) :
    readAll len s = .ok (r.map Prod.fst, s') := by
  rw [readAll, h]
  rfl

theorem recvPayload_size {fh : FrameHeader} {s s' : Socket Fd} {payload : List UInt8}
    (h : recvPayload fh s = .ok (payload, s')) : s'.size ≤ s.size := by
  rw [recvPayload] at h
  split at h
  · cases h
  · split at h
    · rcases hread : readLoop (fun reason => FrameError.runtimeError ("recv failed: " ++ reason))
        (.runtimeError "recv EOF mid-message") fh.payloadLen.toNat [] none s with e | ⟨- | r, s₁⟩
      · simp [readAll, hread, bind, Except.bind] at h
      · simp [readAll_eq hread, bind, Except.bind, throw, throwThe, MonadExceptOf.throw] at h
      · rw [readAll_eq hread] at h
        cases h
        exact (readLoop_size hread).1
    · cases h
      exact le_rfl

theorem recvFrame_size {s s' : Socket Fd} {f : Incoming} (h : recvFrame s = .ok (some f, s')) :
    s'.size < s.size := by
  rw [recvFrame] at h
  rcases hheader : recvHeader s with e | ⟨- | ⟨hdr, fds⟩, s₁⟩ <;> rw [hheader] at h
  · cases h
  · cases h
  · have hlt := (readLoop_size hheader).2 (by decide)
    rcases hparse : parseFrameHeader hdr with e | fh <;>
      simp only [hparse, Except.mapError, bind, Except.bind] at h
    · cases h
    · rcases hpayload : recvPayload fh s₁ with e | ⟨payload, s₂⟩ <;> rw [hpayload] at h
      · cases h
      · cases h
        exact (recvPayload_size hpayload).trans_lt hlt

/-- How the frames of a stream end. -/
inductive StreamEnd
  | clean
  | error (e : FrameError)
  deriving DecidableEq

/-- Frames are received until there are no more, or one is bad. -/
def recvFrames (s : Socket Fd) : List (UInt16 × List UInt8) × StreamEnd :=
  match _h : recvFrame s with
  | .error e => ([], .error e)
  | .ok (none, _) => ([], .clean)
  | .ok (some f, s') =>
    let (fs, e) := recvFrames s'
    ((f.op, f.payload) :: fs, e)
termination_by s.size
decreasing_by exact recvFrame_size _h

theorem recvFrames_error {s : Socket Fd} {e : FrameError} (h : recvFrame s = .error e) :
    recvFrames s = ([], .error e) := by
  rw [recvFrames]
  split <;> simp_all

theorem recvFrames_none {s s' : Socket Fd} (h : recvFrame s = .ok (none, s')) :
    recvFrames s = ([], .clean) := by
  rw [recvFrames]
  split <;> simp_all

theorem recvFrames_some {s s' : Socket Fd} {f : Incoming} (h : recvFrame s = .ok (some f, s')) :
    recvFrames s = ((f.op, f.payload) :: (recvFrames s').1, (recvFrames s').2) := by
  rw [recvFrames]
  split <;> simp_all

/-! ## What is sent is received -/

/-- A frame that is sent. -/
structure Frame where
  op : UInt16
  flags : UInt16
  payload : List UInt8
  fds : List Fd
  payload_le : payload.length ≤ maxPayload
  fds_le : fds.length ≤ maxFds

namespace Frame

variable {s : Socket Fd} {f : Frame} {t : List UInt8}

def send (f : Frame) : Except FrameError (Socket Fd) := do
  let frame ← (makeFrame f.op f.payload f.flags).mapError .wireError
  sendFrame frame f.fds

def header (f : Frame) : FrameHeader :=
  ⟨rpcMagic, f.op, f.flags, UInt32.ofNat f.payload.length⟩

def bytes (f : Frame) : List UInt8 := write f.header.put ++ f.payload

theorem payloadLen_header (f : Frame) : f.header.payloadLen.toNat = f.payload.length :=
  UInt32.toNat_ofNat_of_lt' (f.payload_le.trans_lt (by decide))

/-- The bytes of a frame are what is sent for it. -/
theorem send_eq (f : Frame) : ∃ pieces, f.send = .ok pieces ∧ pieces.stream = f.bytes := by
  have hmake : makeFrame f.op f.payload f.flags = .ok f.bytes :=
    if_neg (not_lt.2 (f.payload_le.trans (by decide)))
  have hlength : ¬f.bytes.length < frameHeaderSize := by
    rw [bytes, List.length_append, length_put]
    omega
  rw [send, hmake]
  change ∃ pieces, sendFrame f.bytes f.fds = .ok pieces ∧ _
  rw [sendFrame, dif_neg hlength]
  split
  · exact ⟨_, rfl, by simp [Arrival.bytes]⟩
  · rw [if_neg (not_lt.2 f.fds_le)]
    refine ⟨_, rfl, ?_⟩
    split
    · simp [Arrival.bytes]
    · rename_i hshort
      simpa [Arrival.bytes] using hshort

/-- A payload that is there is received. -/
theorem recvPayload_eq (hc : s.Clean) (hs : s.stream = f.payload ++ t) :
    ∃ s', recvPayload f.header s = .ok (f.payload, s') ∧ s'.Clean ∧ s'.stream = t := by
  rw [recvPayload, payloadLen_header, if_neg (not_lt.2 f.payload_le)]
  split
  · obtain ⟨fds, s', hread, h⟩ := readLoop_of_le hc (List.length_nil ▸ Nat.zero_add _) hs
    exact ⟨s', by rw [readAll_eq hread]; rfl, h⟩
  · have hnil : f.payload = [] := List.eq_nil_of_length_eq_zero (by omega)
    exact ⟨s, by rw [hnil], hc, by rw [hs, hnil, List.nil_append]⟩

/-- A payload of which a part is missing is not received. -/
theorem recvPayload_cut (hc : s.Clean) (hs : s.stream.length < f.payload.length) :
    ∃ e, recvPayload f.header s = .error e := by
  rw [recvPayload, payloadLen_header, if_neg (not_lt.2 f.payload_le), if_pos (by omega)]
  by_cases hnil : s.stream = []
  · have hpos : 0 < f.payload.length := by omega
    obtain ⟨s', hread⟩ := readLoop_nil hc hpos hnil
    exact ⟨_, by rw [readAll_eq hread]; rfl⟩
  · have hlt : ([] : List UInt8).length + s.stream.length < f.payload.length := by simpa using hs
    exact ⟨_, by rw [readAll, readLoop_of_lt hc hlt (.inr hnil)]; rfl⟩

/-- A header that is there is received. -/
theorem recvHeader_eq (hc : s.Clean) (hs : s.stream = write f.header.put ++ t) :
    ∃ fds s', recvFrame s = (do
        let (payload, s) ← recvPayload f.header s'
        return (some ⟨f.op, payload, fds⟩, s)) ∧ s'.Clean ∧ s'.stream = t := by
  obtain ⟨fds, s', hread, h⟩ := readLoop_of_le hc
    (List.length_nil ▸ (Nat.zero_add _).trans (length_put f.header)) hs
  refine ⟨fds, s', ?_, h⟩
  rw [recvFrame, recvHeader, hread, List.nil_append]
  simp only [bind, Except.bind, parseFrameHeader_put (h := f.header) rfl]
  rfl

/-- A frame is received as it was sent, and what comes after it is left. -/
theorem recvFrame_eq (hc : s.Clean) (hs : s.stream = f.bytes ++ t) :
    ∃ fds s', recvFrame s = .ok (some ⟨f.op, f.payload, fds⟩, s') ∧ s'.Clean ∧ s'.stream = t := by
  rw [bytes, List.append_assoc] at hs
  obtain ⟨fds, s₁, hrun, hc₁, hs₁⟩ := recvHeader_eq hc hs
  obtain ⟨s₂, hpayload, h⟩ := recvPayload_eq hc₁ hs₁
  exact ⟨fds, s₂, by rw [hrun, hpayload]; rfl, h⟩

/-- A frame of which only a part is there is not received. -/
theorem recvFrame_cut (hc : s.Clean) (hs : s.stream <+: f.bytes) (hne : s.stream ≠ [])
    (hcut : s.stream ≠ f.bytes) : ∃ e, recvFrame s = .error e := by
  -- it is cut in the header, or in the payload
  rcases lt_or_ge s.stream.length frameHeaderSize with hlt | hge
  · have hshort : ([] : List UInt8).length + s.stream.length < frameHeaderSize := by
      simpa using hlt
    exact ⟨_, by rw [recvFrame, recvHeader, readLoop_of_lt hc hshort (.inr hne)]; rfl⟩
  · obtain ⟨t, ht⟩ : write f.header.put <+: s.stream :=
      List.prefix_of_prefix_length_le (List.prefix_append ..) hs (by rwa [length_put])
    obtain ⟨fds, s', hrun, hc', hs'⟩ := recvHeader_eq hc ht.symm
    have hshort : s'.stream.length < f.payload.length := by
      have hlt := lt_of_le_of_ne hs.length_le fun h => hcut (hs.eq_of_length h)
      rw [← ht, bytes, List.length_append, List.length_append] at hlt
      rw [hs']
      omega
    obtain ⟨e, he⟩ := recvPayload_cut hc' hshort
    exact ⟨e, by rw [hrun, he]; rfl⟩

end Frame

/-- At the end of the stream, no frame is received. -/
theorem recvFrame_nil {s : Socket Fd} (hc : s.Clean) (hs : s.stream = []) :
    ∃ s', recvFrame s = .ok (none, s') := by
  have hpos : 0 < frameHeaderSize := by decide
  obtain ⟨s', hread⟩ := readLoop_nil hc hpos hs
  exact ⟨s', by rw [recvFrame, recvHeader, hread]; rfl⟩

/-- What is sent for frames, one after the other. -/
def sendFrames (frames : List Frame) : Except FrameError (Socket Fd) := do
  let pieces ← frames.mapM Frame.send
  return pieces.flatten

theorem sendFrames_eq (frames : List Frame) :
    ∃ pieces, sendFrames frames = .ok pieces ∧ pieces.stream = frames.flatMap Frame.bytes := by
  induction frames with
  | nil => exact ⟨[], rfl, rfl⟩
  | cons f frames ih =>
    obtain ⟨first, hfirst, hstream⟩ := f.send_eq
    obtain ⟨rest, hrest, hstreams⟩ := ih
    obtain ⟨pieces, hpieces, rfl⟩ : ∃ pieces, frames.mapM Frame.send = .ok pieces ∧
        pieces.flatten = rest := by
      rw [sendFrames] at hrest
      cases hmap : frames.mapM Frame.send with
      | error e =>
        rw [hmap] at hrest
        cases hrest
      | ok pieces =>
        rw [hmap] at hrest
        exact ⟨pieces, rfl, Except.ok.inj hrest⟩
    refine ⟨first ++ pieces.flatten, ?_, ?_⟩
    · rw [sendFrames, List.mapM_cons, hfirst, hpieces]
      rfl
    · rw [List.flatMap_cons, ← hstream, ← hstreams]
      exact List.flatMap_append

/-- Frames are received in order, and then what comes after them. -/
theorem recvFrames_append {s : Socket Fd} {frames : List Frame} {t : List UInt8} (hc : s.Clean)
    (hs : s.stream = frames.flatMap Frame.bytes ++ t) :
    ∃ s', s'.Clean ∧ s'.stream = t ∧
      recvFrames s =
        (frames.map (fun f => (f.op, f.payload)) ++ (recvFrames s').1, (recvFrames s').2) := by
  induction frames generalizing s with
  | nil => exact ⟨s, hc, hs, rfl⟩
  | cons f frames ih =>
    rw [List.flatMap_cons, List.append_assoc] at hs
    obtain ⟨fds, s₁, hrun, hc₁, hs₁⟩ := Frame.recvFrame_eq hc hs
    obtain ⟨s₂, hc₂, hs₂, h⟩ := ih hc₁ hs₁
    exact ⟨s₂, hc₂, hs₂, by rw [recvFrames_some hrun, h]; rfl⟩

/-- Frames can be sent, and in whatever pieces their bytes arrive, the same frames are received,
    in order, and then a clean end. If only a part of one more frame arrives, the frames before it
    are received, and then an error. -/
theorem frames_received (frames : List Frame) :
    ∃ pieces, sendFrames frames = .ok pieces ∧
      (∀ s, Clean s → s.stream = pieces.stream →
        recvFrames s = (frames.map (fun f => (f.op, f.payload)), .clean)) ∧
      ∀ f : Frame, ∃ last, f.send = .ok last ∧
        ∀ s cut, Clean s → s.stream = pieces.stream ++ cut →
          cut <+: last.stream → cut ≠ [] → cut ≠ last.stream →
          ∃ e, recvFrames s = (frames.map (fun f => (f.op, f.payload)), .error e) := by
  obtain ⟨pieces, hsend, hpieces⟩ := sendFrames_eq frames
  refine ⟨pieces, hsend, fun s hc hs => ?_, fun f => ?_⟩
  · rw [hpieces, ← List.append_nil (frames.flatMap Frame.bytes)] at hs
    obtain ⟨s', hc', hs', h⟩ := recvFrames_append hc hs
    obtain ⟨s'', hnone⟩ := recvFrame_nil hc' hs'
    rw [h, recvFrames_none hnone, List.append_nil]
  · obtain ⟨last, hlast, hbytes⟩ := f.send_eq
    refine ⟨last, hlast, fun s cut hc hs hcut hne hshort => ?_⟩
    rw [hpieces] at hs
    rw [hbytes] at hcut hshort
    obtain ⟨s', hc', rfl, h⟩ := recvFrames_append hc hs
    obtain ⟨e, herror⟩ := Frame.recvFrame_cut hc' hcut hne hshort
    exact ⟨e, by rw [h, recvFrames_error herror, List.append_nil]⟩

end StateSpectre.Wire
