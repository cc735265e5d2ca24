/-
# Streams of structures with lists

`send_dynamic_stream` copies a structure as it lies in memory, and behind it the entries
of the list that one of its pointers refers to. `recv_dynamic_stream` copies the structure
back and reads as many entries as a field of it says. The pointers of the sender and the
gaps between the fields are in the message too; nothing that is received depends on them.

Sizes are computed in the types of the code: the size of the hosts' lines is an `int`, and
the number of received bytes is returned as an `int32_t`.
-/

import Mathlib.Algebra.Ring.Int.Defs
import Hercules.Lib.Stream

namespace Hercules.Comms

open Lib Lib.Reader

/-- The text that stands for a missing key. -/
def errNoKeyAvail : List UInt8 :=
  "$ERRIMSS_NO_KEY_AVAIL$".toList.map fun c => UInt8.ofNat c.toNat

/-- The bytes of `imss://`. -/
def uriScheme : List UInt8 :=
  "imss://".toList.map fun c => UInt8.ofNat c.toNat

/-- What a call of `recv_dynamic_stream` ends with: the text for a missing key was recognised, or a
structure was read. `unread` is the part of the message that was not looked at. -/
inductive Received (α : Type)
  | noKey
  | data (returned : Int32) (struct : α) (unread : List UInt8)

/-- `recv_dynamic_stream` for a structure. There is no result if it reads beyond the message. -/
def recvDynamicStream {α : Type} (reader : Reader UInt8 α) (message : List UInt8) :
    Option (Received α) :=
  if errNoKeyAvail.isPrefixOf message then some .noKey
  else (reader message).map fun result =>
    .data (Int32.ofNat message.length) result.1 result.2

/-- `send_dynamic_stream` for a structure: the buffer has the computed size, and the structure
and its list are copied to it. There is no result if they do not fill it, because the buffer
cannot be allocated or the copies run beyond it. -/
def sendDynamicStream (msgSize : Int) (message : List UInt8) : Option (List UInt8) :=
  if msgSize % 2 ^ 64 = message.length then some message else none

/-- The structure arrives as it was sent, the whole message was read, and its length is returned. -/
def Delivered {α : Type} (sent : Option (List UInt8)) (reader : Reader UInt8 α) (struct : α) :
    Prop :=
  ∃ message returned, sent = some message ∧
    recvDynamicStream reader message = some (.data returned struct []) ∧
    returned.toInt = message.length

/-- A message that begins with `imss://` is not taken for the text. -/
theorem not_isPrefixOf_of_scheme {message : List UInt8} (hscheme : uriScheme <+: message) :
    errNoKeyAvail.isPrefixOf message = false := by
  obtain ⟨rest, rfl⟩ := hscheme
  have hscheme : ∃ tail, uriScheme = 105 :: tail := ⟨uriScheme.tail, by decide⟩
  have htext : ∃ tail, errNoKeyAvail = 36 :: tail := ⟨errNoKeyAvail.tail, by decide +kernel⟩
  obtain ⟨tail, hscheme⟩ := hscheme
  obtain ⟨tail', htext⟩ := htext
  rw [hscheme, htext]
  rfl

/-- A structure is delivered exactly if the length of its message is an `int32_t`. -/
theorem delivered_iff {α : Type} {reader : Reader UInt8 α} {struct : α} {message : List UInt8}
    {msgSize : Int} (hread : Reads reader message struct) (hscheme : uriScheme <+: message)
    (hsize : message.length < 2 ^ 31 → msgSize % 2 ^ 64 = message.length) :
    Delivered (sendDynamicStream msgSize message) reader struct ↔ message.length < 2 ^ 31 := by
  constructor
  · rintro ⟨sent, returned, hsent, -, hreturned⟩
    rw [sendDynamicStream] at hsent
    split at hsent
    · obtain rfl := Option.some.inj hsent
      have hlt := returned.toInt_lt
      omega
    · cases hsent
  · intro hlt
    refine ⟨message, Int32.ofNat message.length, if_pos (hsize hlt), ?_, ?_⟩
    · rw [recvDynamicStream, not_isPrefixOf_of_scheme hscheme, hread.whole]
      rfl
    · exact Int32.toInt_ofNat_of_lt hlt

/-! ## Instances -/

/-- `imss_info`; the pointer stands for the lines of the hosts. -/
structure ImssInfo where
  uri : Bytes 256
  type : UInt8
  ips : List (Bytes 512)
  numActiveStorages : Int32
  numStorages : Int32
  sessionPlcy : Int32
  connPort : UInt16

/-- The rest of the memory of an `imss_info`: the pointer and the gaps. -/
structure ImssInfo.Gaps where
  afterType : Bytes 7
  ips : Bytes 8
  atEnd : Bytes 2

namespace ImssInfo

/-- There are as many lines as the structure says, and the URI begins with `imss://`. -/
structure Valid (info : ImssInfo) : Prop where
  numStorages_eq : info.numStorages.toInt = info.ips.length
  scheme : uriScheme <+: info.uri.1

/-- The memory of the structure. -/
def image (gaps : Gaps) (info : ImssInfo) : List UInt8 :=
  (Codec.bytes 256).encode info.uri ++ (Codec.uint8.encode info.type ++
    ((Codec.bytes 7).encode gaps.afterType ++ ((Codec.bytes 8).encode gaps.ips ++
    (Codec.int32.encode info.numActiveStorages ++ (Codec.int32.encode info.numStorages ++
    (Codec.int32.encode info.sessionPlcy ++ (Codec.uint16.encode info.connPort ++
    (Codec.bytes 2).encode gaps.atEnd)))))))

/-- The case `IMSS_INFO` of `send_dynamic_stream`. -/
def send (gaps : Gaps) (info : ImssInfo) : Option (List UInt8) :=
  sendDynamicStream (288 + (512 * info.numStorages).toInt)
    (info.image gaps ++ info.ips.flatMap (Codec.bytes 512).encode)

/-- The case `IMSS_INFO` of `recv_dynamic_stream`, after the test for the text. -/
def reader : Reader UInt8 ImssInfo := do
  let uri ← (Codec.bytes 256).reader
  let type ← Codec.uint8.reader
  let _ ← (Codec.bytes 7).reader
  let _ ← (Codec.bytes 8).reader
  let numActiveStorages ← Codec.int32.reader
  let numStorages ← Codec.int32.reader
  let sessionPlcy ← Codec.int32.reader
  let connPort ← Codec.uint16.reader
  let _ ← (Codec.bytes 2).reader
  let ips ← readMany (Codec.bytes 512).reader numStorages.toInt.toNat
  pure ⟨uri, type, ips, numActiveStorages, numStorages, sessionPlcy, connPort⟩

theorem length_image (gaps : Gaps) (info : ImssInfo) : (info.image gaps).length = 288 := by
  simp only [image, List.length_append, Codec.length_encode]
  rfl

theorem reads_message {info : ImssInfo} (hvalid : info.Valid) (gaps : Gaps) :
    Reads reader (info.image gaps ++ info.ips.flatMap (Codec.bytes 512).encode) info := by
  have hcount : info.numStorages.toInt.toNat = info.ips.length := by
    rw [hvalid.numStorages_eq, Int.toNat_natCast]
  simp only [image, List.append_assoc]
  refine (Codec.reads _ info.uri).bind ?_
  refine (Codec.reads _ info.type).bind ?_
  refine (Codec.reads _ gaps.afterType).bind ?_
  refine (Codec.reads _ gaps.ips).bind ?_
  refine (Codec.reads _ info.numActiveStorages).bind ?_
  refine (Codec.reads _ info.numStorages).bind ?_
  refine (Codec.reads _ info.sessionPlcy).bind ?_
  refine (Codec.reads _ info.connPort).bind ?_
  refine (Codec.reads _ gaps.atEnd).bind ?_
  rw [hcount]
  exact (reads_readMany fun line _ => Codec.reads _ line).bind_pure

/-- The structure is delivered, whatever stands in the gaps. -/
def RoundTrips (info : ImssInfo) : Prop :=
  ∀ gaps, Delivered (info.send gaps) reader info

theorem length_message (gaps : Gaps) (info : ImssInfo) :
    (info.image gaps ++ info.ips.flatMap (Codec.bytes 512).encode).length =
      288 + 512 * info.ips.length := by
  rw [List.length_append, length_image, Codec.length_flatMap_encode, Nat.mul_comm]
  rfl

theorem scheme_message {info : ImssInfo} (hvalid : info.Valid) (gaps : Gaps) :
    uriScheme <+: info.image gaps ++ info.ips.flatMap (Codec.bytes 512).encode := by
  rw [image, List.append_assoc]
  exact hvalid.scheme.trans (List.prefix_append _ _)

/-- The size of the lines is computed as an `int`. -/
theorem msgSize_eq {info : ImssInfo} (hvalid : info.Valid)
    (hlt : 288 + 512 * info.ips.length < 2 ^ 31) :
    (288 + (512 * info.numStorages).toInt) % 2 ^ 64 =
      ((288 + 512 * info.ips.length : Nat) : Int) := by
  have hlines : (512 * info.numStorages).toInt = 512 * info.ips.length := by
    have hline : Int32.toInt 512 = 512 := by decide
    rw [Int32.toInt_mul, hvalid.numStorages_eq, hline]
    exact Int.bmod_eq_of_le (by omega) (by omega)
  rw [hlines]
  omega

theorem delivered_send_iff {info : ImssInfo} (hvalid : info.Valid) (gaps : Gaps) :
    Delivered (info.send gaps) reader info ↔ 288 + 512 * info.ips.length < 2 ^ 31 := by
  rw [send, delivered_iff (reads_message hvalid gaps) (scheme_message hvalid gaps), length_message]
  rw [length_message]
  exact msgSize_eq hvalid

/-- Gaps that are filled with zeros. -/
def zeroGaps : Gaps :=
  ⟨⟨List.replicate 7 0, List.length_replicate⟩, ⟨List.replicate 8 0, List.length_replicate⟩,
    ⟨List.replicate 2 0, List.length_replicate⟩⟩

theorem stream_roundTrips_iff {info : ImssInfo} (hvalid : info.Valid) :
    info.RoundTrips ↔ 288 + 512 * info.ips.length < 2 ^ 31 := by
  constructor
  · intro h
    exact (delivered_send_iff hvalid zeroGaps).mp (h zeroGaps)
  · intro hlt gaps
    exact (delivered_send_iff hvalid gaps).mpr hlt

end ImssInfo

/-! ## Datasets -/

/-- `IntervalEntry` as it is copied. -/
structure Interval where
  value : Int32
  leftInterval : Int32
  rightInterval : Int32

namespace Interval

def image (interval : Interval) : List UInt8 :=
  Codec.int32.encode interval.value ++ (Codec.int32.encode interval.leftInterval ++
    Codec.int32.encode interval.rightInterval)

def reader : Reader UInt8 Interval := do
  let value ← Codec.int32.reader
  let leftInterval ← Codec.int32.reader
  let rightInterval ← Codec.int32.reader
  pure ⟨value, leftInterval, rightInterval⟩

theorem reads_image (interval : Interval) : Reads reader interval.image interval := by
  refine (Codec.reads _ interval.value).bind ?_
  refine (Codec.reads _ interval.leftInterval).bind ?_
  exact (Codec.reads _ interval.rightInterval).bind_pure

theorem length_flatMap_image (intervals : List Interval) :
    (intervals.flatMap image).length = 12 * intervals.length := by
  induction intervals with
  | nil => rfl
  | cons interval intervals ih =>
      have himage : interval.image.length = 12 := by
        simp only [image, List.length_append, Codec.length_encode]
        rfl
      rw [List.flatMap_cons, List.length_append, himage, ih, List.length_cons]
      omega

end Interval

/-- `dataset_info`; the pointer stands for the intervals. -/
structure DatasetInfo where
  uri : Bytes 256
  type : UInt8
  policy : Bytes 16
  originalName : Bytes 256
  firstParentDir : Bytes 256
  sessionPlcy : Int32
  numDataElem : Int32
  dataEntitySize : Int32
  replFactor : Int32
  replType : Int32
  imssD : Int32
  localConn : Int32
  size : Int64
  nServers : Int32
  link : Bytes 256
  isLink : Int32
  nOpen : Int32
  status : Bytes 128
  nServersWhenCreated : Int32
  numIntervals : Int32
  capacity : Int32
  firstBlockId : Int32
  lastBlockId : Int32
  intervals : List Interval

/-- The rest of the memory of a `dataset_info`. -/
structure DatasetInfo.Gaps where
  afterFirstParentDir : Bytes 3
  intervals : Bytes 8

namespace DatasetInfo

/-- There are as many intervals as the structure says, and the URI begins with `imss://`. -/
structure Valid (dataset : DatasetInfo) : Prop where
  numIntervals_eq : dataset.numIntervals.toInt = dataset.intervals.length
  scheme : uriScheme <+: dataset.uri.1

/-- The memory of the structure. -/
def image (gaps : Gaps) (dataset : DatasetInfo) : List UInt8 :=
  (Codec.bytes 256).encode dataset.uri ++ (Codec.uint8.encode dataset.type ++
    ((Codec.bytes 16).encode dataset.policy ++ ((Codec.bytes 256).encode dataset.originalName ++
    ((Codec.bytes 256).encode dataset.firstParentDir ++
    ((Codec.bytes 3).encode gaps.afterFirstParentDir ++ (Codec.int32.encode dataset.sessionPlcy ++
    (Codec.int32.encode dataset.numDataElem ++ (Codec.int32.encode dataset.dataEntitySize ++
    (Codec.int32.encode dataset.replFactor ++ (Codec.int32.encode dataset.replType ++
    (Codec.int32.encode dataset.imssD ++ (Codec.int32.encode dataset.localConn ++
    (Codec.int64.encode dataset.size ++ (Codec.int32.encode dataset.nServers ++
    ((Codec.bytes 256).encode dataset.link ++ (Codec.int32.encode dataset.isLink ++
    (Codec.int32.encode dataset.nOpen ++ ((Codec.bytes 128).encode dataset.status ++
    (Codec.int32.encode dataset.nServersWhenCreated ++ (Codec.int32.encode dataset.numIntervals ++
    (Codec.int32.encode dataset.capacity ++ (Codec.int32.encode dataset.firstBlockId ++
    (Codec.int32.encode dataset.lastBlockId ++
    (Codec.bytes 8).encode gaps.intervals)))))))))))))))))))))))

/-- The case `DATASET_INFO` of `send_dynamic_stream`. The size is a `size_t`. -/
def send (gaps : Gaps) (dataset : DatasetInfo) : Option (List UInt8) :=
  sendDynamicStream (1248 + 12 * dataset.numIntervals.toInt)
    (dataset.image gaps ++ dataset.intervals.flatMap Interval.image)

/-- The case `DATASET_INFO` of `recv_dynamic_stream`, after the test for the text. -/
def reader : Reader UInt8 DatasetInfo := do
  let uri ← (Codec.bytes 256).reader
  let type ← Codec.uint8.reader
  let policy ← (Codec.bytes 16).reader
  let originalName ← (Codec.bytes 256).reader
  let firstParentDir ← (Codec.bytes 256).reader
  let _ ← (Codec.bytes 3).reader
  let sessionPlcy ← Codec.int32.reader
  let numDataElem ← Codec.int32.reader
  let dataEntitySize ← Codec.int32.reader
  let replFactor ← Codec.int32.reader
  let replType ← Codec.int32.reader
  let imssD ← Codec.int32.reader
  let localConn ← Codec.int32.reader
  let size ← Codec.int64.reader
  let nServers ← Codec.int32.reader
  let link ← (Codec.bytes 256).reader
  let isLink ← Codec.int32.reader
  let nOpen ← Codec.int32.reader
  let status ← (Codec.bytes 128).reader
  let nServersWhenCreated ← Codec.int32.reader
  let numIntervals ← Codec.int32.reader
  let capacity ← Codec.int32.reader
  let firstBlockId ← Codec.int32.reader
  let lastBlockId ← Codec.int32.reader
  let _ ← (Codec.bytes 8).reader
  let intervals ← readMany Interval.reader numIntervals.toInt.toNat
  pure ⟨uri, type, policy, originalName, firstParentDir, sessionPlcy, numDataElem, dataEntitySize,
    replFactor, replType, imssD, localConn, size, nServers, link, isLink, nOpen, status,
    nServersWhenCreated, numIntervals, capacity, firstBlockId, lastBlockId, intervals⟩

theorem length_image (gaps : Gaps) (dataset : DatasetInfo) :
    (dataset.image gaps).length = 1248 := by
  simp only [image, List.length_append, Codec.length_encode]
  rfl

theorem reads_message {dataset : DatasetInfo} (hvalid : dataset.Valid) (gaps : Gaps) :
    Reads reader (dataset.image gaps ++ dataset.intervals.flatMap Interval.image) dataset := by
  have hcount : dataset.numIntervals.toInt.toNat = dataset.intervals.length := by
    rw [hvalid.numIntervals_eq, Int.toNat_natCast]
  simp only [image, List.append_assoc]
  refine (Codec.reads _ dataset.uri).bind ?_
  refine (Codec.reads _ dataset.type).bind ?_
  refine (Codec.reads _ dataset.policy).bind ?_
  refine (Codec.reads _ dataset.originalName).bind ?_
  refine (Codec.reads _ dataset.firstParentDir).bind ?_
  refine (Codec.reads _ gaps.afterFirstParentDir).bind ?_
  refine (Codec.reads _ dataset.sessionPlcy).bind ?_
  refine (Codec.reads _ dataset.numDataElem).bind ?_
  refine (Codec.reads _ dataset.dataEntitySize).bind ?_
  refine (Codec.reads _ dataset.replFactor).bind ?_
  refine (Codec.reads _ dataset.replType).bind ?_
  refine (Codec.reads _ dataset.imssD).bind ?_
  refine (Codec.reads _ dataset.localConn).bind ?_
  refine (Codec.reads _ dataset.size).bind ?_
  refine (Codec.reads _ dataset.nServers).bind ?_
  refine (Codec.reads _ dataset.link).bind ?_
  refine (Codec.reads _ dataset.isLink).bind ?_
  refine (Codec.reads _ dataset.nOpen).bind ?_
  refine (Codec.reads _ dataset.status).bind ?_
  refine (Codec.reads _ dataset.nServersWhenCreated).bind ?_
  refine (Codec.reads _ dataset.numIntervals).bind ?_
  refine (Codec.reads _ dataset.capacity).bind ?_
  refine (Codec.reads _ dataset.firstBlockId).bind ?_
  refine (Codec.reads _ dataset.lastBlockId).bind ?_
  refine (Codec.reads _ gaps.intervals).bind ?_
  rw [hcount]
  exact (reads_readMany fun interval _ => interval.reads_image).bind_pure

/-- The structure is delivered, whatever stands in the gaps. -/
def RoundTrips (dataset : DatasetInfo) : Prop :=
  ∀ gaps, Delivered (dataset.send gaps) reader dataset

theorem length_message (gaps : Gaps) (dataset : DatasetInfo) :
    (dataset.image gaps ++ dataset.intervals.flatMap Interval.image).length =
      1248 + 12 * dataset.intervals.length := by
  rw [List.length_append, length_image, Interval.length_flatMap_image]

theorem scheme_message {dataset : DatasetInfo} (hvalid : dataset.Valid) (gaps : Gaps) :
    uriScheme <+: dataset.image gaps ++ dataset.intervals.flatMap Interval.image := by
  rw [image, List.append_assoc]
  exact hvalid.scheme.trans (List.prefix_append _ _)

theorem delivered_send_iff {dataset : DatasetInfo} (hvalid : dataset.Valid) (gaps : Gaps) :
    Delivered (dataset.send gaps) reader dataset ↔
      1248 + 12 * dataset.intervals.length < 2 ^ 31 := by
  rw [send, delivered_iff (reads_message hvalid gaps) (scheme_message hvalid gaps), length_message]
  rw [length_message, hvalid.numIntervals_eq]
  omega

/-- Gaps that are filled with zeros. -/
def zeroGaps : Gaps :=
  ⟨⟨List.replicate 3 0, List.length_replicate⟩, ⟨List.replicate 8 0, List.length_replicate⟩⟩

theorem stream_roundTrips_iff {dataset : DatasetInfo} (hvalid : dataset.Valid) :
    dataset.RoundTrips ↔ 1248 + 12 * dataset.intervals.length < 2 ^ 31 := by
  constructor
  · intro h
    exact (delivered_send_iff hvalid zeroGaps).mp (h zeroGaps)
  · intro hlt gaps
    exact (delivered_send_iff hvalid gaps).mpr hlt

end DatasetInfo

/-- The two structures are delivered exactly if their messages are shorter than `2 ^ 31` bytes. -/
theorem dynamicStream_roundTrips_iff {info : ImssInfo} {dataset : DatasetInfo} (hinfo : info.Valid)
    (hdataset : dataset.Valid) :
    (info.RoundTrips ↔ 288 + 512 * info.ips.length < 2 ^ 31) ∧
      (dataset.RoundTrips ↔ 1248 + 12 * dataset.intervals.length < 2 ^ 31) :=
  ⟨ImssInfo.stream_roundTrips_iff hinfo, DatasetInfo.stream_roundTrips_iff hdataset⟩

/-- An array of zeros. -/
def blank (n : Nat) : Bytes n :=
  ⟨List.replicate n 0, List.length_replicate⟩

theorem length_rootUri : (uriScheme ++ List.replicate 249 0).length = 256 := by
  rw [List.length_append, List.length_replicate]
  decide

/-- The URI of the root. -/
def rootUri : Bytes 256 :=
  ⟨uriScheme ++ List.replicate 249 0, length_rootUri⟩

/-- An instance with `n` hosts, as the field for their number counts them. -/
def instanceOf (n : Nat) (numStorages : Int32) : ImssInfo :=
  ⟨rootUri, 73, List.replicate n (blank 512), numStorages, numStorages, 0, 0⟩

theorem valid_instanceOf {n : Nat} {numStorages : Int32} (hn : numStorages.toInt = n) :
    (instanceOf n numStorages).Valid :=
  ⟨hn.trans (by rw [instanceOf, List.length_replicate]), List.prefix_append _ _⟩

/-- A dataset with one interval. -/
def oneInterval : DatasetInfo where
  uri := rootUri
  type := 82
  policy := blank 16
  originalName := rootUri
  firstParentDir := rootUri
  sessionPlcy := 0
  numDataElem := 0
  dataEntitySize := 0
  replFactor := 1
  replType := 0
  imssD := 0
  localConn := 0
  size := 0
  nServers := 0
  link := blank 256
  isLink := 0
  nOpen := 0
  status := blank 128
  nServersWhenCreated := 1
  numIntervals := 1
  capacity := 100
  firstBlockId := -1
  lastBlockId := -1
  intervals := [⟨1, 0, 0⟩]

theorem dynamicStream_roundTrips_twoHosts :
    (instanceOf 2 2).RoundTrips ∧ oneInterval.RoundTrips := by
  have hdataset : oneInterval.Valid := ⟨by decide, List.prefix_append _ _⟩
  have hboth := dynamicStream_roundTrips_iff (valid_instanceOf (show Int32.toInt 2 = (2 : Nat) by
    decide)) hdataset
  refine ⟨hboth.1.mpr ?_, hboth.2.mpr (by decide)⟩
  rw [instanceOf, List.length_replicate]
  decide

/-- The size of the lines of `2 ^ 22` hosts is `2 ^ 31`, which is no `int`: no message is built. -/
theorem not_dynamicStream_roundTrips :
    let info := instanceOf 4194304 4194304
    info.Valid ∧ (∀ gaps, info.send gaps = none) ∧ ¬ info.RoundTrips := by
  have hvalid : (instanceOf 4194304 4194304).Valid := valid_instanceOf (by decide)
  have hlength : (instanceOf 4194304 4194304).ips.length = 4194304 := by
    rw [instanceOf, List.length_replicate]
  refine ⟨hvalid, fun gaps => ?_, ?_⟩
  · rw [ImssInfo.send, sendDynamicStream, if_neg]
    rw [ImssInfo.length_message, hlength]
    decide
  · rw [ImssInfo.stream_roundTrips_iff hvalid, hlength]
    decide

end Hercules.Comms
