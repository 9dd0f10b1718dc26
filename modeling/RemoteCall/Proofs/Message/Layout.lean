import RemoteCall.Proofs.Message.Fields
import RemoteCall.Proofs.Message.Places
import RemoteCall.Proofs.Text.Order

/-! The frames that are read as requests.

Such a frame is a fixed head with lengths that fit it, then the service, the method and any entries,
each with its separators behind it, and then the data. There is only one way to take it apart so. -/
namespace RemoteCall.Request
variable {r s : Request} {frame : ByteArray}

/-- The texts of a header, with the entries in the order in which they stand. -/
structure Layout where
  service : String
  method : String
  entries : List (String × String)

namespace Layout
variable {l m : Layout}

def bytes (l : Layout) : List UInt8 :=
  utf8 l.service ++ splitter :: utf8 l.method ++ splitter :: l.entries.flatMap entryBytes

/-- Every text ends where its separator stands, and no key stands twice. -/
structure IsReadable (l : Layout) : Prop where
  service : splitter ∉ utf8 l.service
  method : splitter ∉ utf8 l.method
  entries : ∀ e ∈ l.entries, IsEntry e
  keys : (l.entries.map Prod.fst).Nodup

structure Fits (l : Layout) (frame : ByteArray) : Prop where
  headSize_le : headSize ≤ bigEndianAt frame 0 4
  le_size : bigEndianAt frame 0 4 ≤ frame.size
  body_eq : bigEndianAt frame 4 4 = frame.size - bigEndianAt frame 0 4
  bytes_eq : (frame.extract headSize (bigEndianAt frame 0 4)).data.toList = l.bytes
  readable : l.IsReadable

/-- The request holds what stands in the frame. -/
structure Gives (l : Layout) (frame : ByteArray) (r : Request) : Prop where
  headLength : r.headLength.toNat = bigEndianAt frame 0 4
  bodyLength : r.bodyLength.toNat = bigEndianAt frame 4 4
  messageId : r.codes.messageId.toNat = bigEndianAt frame 8 4
  version : r.codes.version = byteAt frame 12
  compressor : r.codes.compressor = byteAt frame 13
  serializer : r.codes.serializer = byteAt frame 14
  service : r.service = l.service
  method : r.method = l.method
  metadata : r.metadata.entries.Perm l.entries
  data : r.data = frame.extract (bigEndianAt frame 0 4) frame.size

/-- Entries that end where their separators stand are told by their bytes. -/
theorem eq_of_entries {k l : List (String × String)} (hk : ∀ e ∈ k, IsEntry e)
    (hl : ∀ e ∈ l, IsEntry e) (h : k.flatMap entryBytes = l.flatMap entryBytes) : k = l := by
  -- entry by entry: the first separators stand at the same places
  induction k generalizing l with
  | nil =>
    cases l with
    | nil => rfl
    | cons e rest =>
      rw [flatMap_entryBytes_cons] at h
      simp at h
  | cons e rest ih =>
    cases l with
    | nil =>
      rw [flatMap_entryBytes_cons] at h
      simp at h
    | cons f more =>
      have he := hk e List.mem_cons_self
      have hf := hl f List.mem_cons_self
      rw [flatMap_entryBytes_cons, flatMap_entryBytes_cons,
        append_cons_inj he.not_mem hf.not_mem, append_cons_inj he.key_pair hf.key_pair] at h
      -- the same key, the same value and the same bytes behind them
      obtain ⟨⟨hkey, hvalue⟩, hrest⟩ := h
      have hef : e = f := Prod.ext (utf8_inj.mp hkey) (utf8_inj.mp hvalue)
      have hmore : rest = more := ih (fun x hx => hk x (List.mem_cons_of_mem _ hx))
        (fun x hx => hl x (List.mem_cons_of_mem _ hx)) hrest
      rw [hef, hmore]

/-- A layout is told by its bytes. -/
theorem IsReadable.bytes_inj (hl : l.IsReadable) (hm : m.IsReadable) :
    l.bytes = m.bytes ↔ l = m := by
  constructor
  · intro h
    -- the first separator ends the service and the next one the method
    rw [bytes, bytes, List.append_assoc, List.append_assoc, List.cons_append, List.cons_append,
      append_cons_inj hl.service hm.service, append_cons_inj hl.method hm.method] at h
    obtain ⟨hservice, hmethod, hentries⟩ := h
    cases l
    cases m
    congr 1
    · exact utf8_inj.mp hservice
    · exact utf8_inj.mp hmethod
    · exact eq_of_entries hl.entries hm.entries hentries
  · rintro rfl
    rfl

/-- A frame is laid out in one way only. -/
theorem Fits.eq (hl : l.Fits frame) (hm : m.Fits frame) : l = m :=
  (hl.readable.bytes_inj hm.readable).mp (hl.bytes_eq.symm.trans hm.bytes_eq)

def request (l : Layout) (frame : ByteArray) : Request where
  headLength := .ofNat (bigEndianAt frame 0 4)
  bodyLength := .ofNat (frame.size - bigEndianAt frame 0 4)
  codes := codesAt frame
  service := l.service
  method := l.method
  metadata := .ofList l.entries
  data := frame.extract (bigEndianAt frame 0 4) frame.size

theorem IsReadable.perm_ofList (hl : l.IsReadable) :
    (KeyMap.ofList l.entries).entries.Perm l.entries :=
  KeyMap.perm_insertAll (m := .empty) hl.keys

/-- Only one request holds what stands in a frame. -/
theorem Fits.gives_iff (hl : l.Fits frame) : l.Gives frame r ↔ r = l.request frame := by
  constructor
  · intro hr
    -- a word is known by its number
    have hhead : r.headLength = .ofNat (bigEndianAt frame 0 4) := by
      rw [← hr.headLength, UInt32.ofNat_toNat]
    have hbody : r.bodyLength = .ofNat (frame.size - bigEndianAt frame 0 4) := by
      rw [← hl.body_eq, ← hr.bodyLength, UInt32.ofNat_toNat]
    have hcodes : r.codes = codesAt frame := by
      have hid : r.codes.messageId = .ofNat (bigEndianAt frame 8 4) := by
        rw [← hr.messageId, UInt32.ofNat_toNat]
      rw [codesAt, ← hid, ← hr.version, ← hr.compressor, ← hr.serializer]
    have hmetadata : r.metadata = .ofList l.entries :=
      KeyMap.eq_of_perm (hr.metadata.trans hl.readable.perm_ofList.symm)
    -- every field is now the one that `request` gives
    rw [request, ← hhead, ← hbody, ← hcodes, ← hr.service, ← hr.method, ← hmetadata, ← hr.data]
  · rintro rfl
    have hlt := bigEndianAt_lt (a := frame) (i := 4)
    refine ⟨?_, ?_, ?_, rfl, rfl, rfl, rfl, rfl, hl.readable.perm_ofList, rfl⟩
    · exact UInt32.toNat_ofNat_of_lt' bigEndianAt_lt
    · rw [hl.body_eq] at hlt ⊢
      exact UInt32.toNat_ofNat_of_lt' hlt
    · exact UInt32.toNat_ofNat_of_lt' bigEndianAt_lt

end Layout

/-- A frame is read as a request just if its texts are laid out so. -/
theorem decode?_eq_ok : decode? frame = .ok r ↔ ∃ l : Layout, l.Fits frame ∧
    r = l.request frame := by
  constructor
  · intro h
    -- the steps of the reader, from the first on: what is left behind one is what the next reads
    obtain ⟨n, hlength, hfields⟩ := bind_eq_ok.mp h
    obtain ⟨⟨hhead, hsize, hbody⟩, rfl⟩ := headerLength_eq_ok.mp hlength
    obtain ⟨⟨service, rest⟩, hread, hafter⟩ := bind_eq_ok.mp hfields
    obtain ⟨hservice, hbytes⟩ := readField_eq_ok.mp hread
    obtain ⟨⟨method, more⟩, hread', hlast⟩ := bind_eq_ok.mp hafter
    obtain ⟨hmethod, hrest⟩ := readField_eq_ok.mp hread'
    obtain ⟨metadata, hread'', hok⟩ := bind_eq_ok.mp hlast
    obtain ⟨entries, hmore, hentries, hkeys, hperm⟩ := readEntries_eq_ok.mp hread''
    have hfits : Layout.Fits ⟨service, method, entries⟩ frame := by
      refine ⟨hhead, hsize, hbody, ?_, hservice, hmethod, hentries, hkeys⟩
      rw [hbytes, hrest, hmore, Layout.bytes, List.append_assoc, List.cons_append]
    refine ⟨_, hfits, ?_⟩
    obtain rfl := Except.ok.inj hok
    -- the order of the entries is forgotten
    have hmetadata : metadata = .ofList entries :=
      KeyMap.eq_of_perm (hperm.trans hfits.readable.perm_ofList.symm)
    rw [hmetadata]
    rfl
  · rintro ⟨l, hl, rfl⟩
    have hr := hl.readable
    -- the same steps, none of which can fail
    refine bind_eq_ok.mpr ⟨_,
      headerLength_eq_ok.mpr ⟨⟨hl.headSize_le, hl.le_size, hl.body_eq⟩, rfl⟩, ?_⟩
    rw [hl.bytes_eq, Layout.bytes, List.append_assoc, List.cons_append]
    refine bind_eq_ok.mpr ⟨_, readField_eq_ok.mpr ⟨hr.service, rfl⟩, ?_⟩
    refine bind_eq_ok.mpr ⟨_, readField_eq_ok.mpr ⟨hr.method, rfl⟩, ?_⟩
    refine bind_eq_ok.mpr
      ⟨_, readEntries_eq_ok.mpr ⟨_, rfl, hr.entries, hr.keys, hr.perm_ofList⟩, ?_⟩
    rfl

/-- A frame is read as a request exactly if it is laid out as one. -/
theorem decode_eq_ok : decode frame = .ok r ↔ ∃ l : Layout, l.Fits frame ∧ r = l.request frame :=
  mapError_eq_ok.trans decode?_eq_ok

theorem kind_of_decode {e : Error} (h : decode frame = .error e) : e.kind = .protocol := by
  obtain ⟨m, -, rfl⟩ := mapError_eq_error.mp h
  rfl

/-- A byte string is read as a request exactly if it is laid out as one, which it is in one way at
most, and the request is what stands in it. All others break the protocol. No byte is ever looked
for outside of the string. -/
theorem decode_grammar (frame : ByteArray) :
    (∀ r, decode frame = .ok r ↔ ∃ l : Layout, l.Fits frame ∧ l.Gives frame r) ∧
    (∀ l m : Layout, l.Fits frame → m.Fits frame → l = m) ∧
    ((∃ l : Layout, l.Fits frame) ∨ ∃ e, decode frame = .error e ∧ e.kind = .protocol) ∧
    decodeByPlace frame = some (decode frame) := by
  refine ⟨fun r => ?_, fun l m hl hm => hl.eq hm, ?_, decodeByPlace_eq⟩
  · rw [decode_eq_ok]
    exact exists_congr fun l => and_congr_right fun hl => hl.gives_iff.symm
  · cases hd : decode frame with
    | ok r =>
      obtain ⟨l, hl, -⟩ := decode_eq_ok.mp hd
      exact .inl ⟨l, hl⟩
    | error e => exact .inr ⟨e, rfl, kind_of_decode hd⟩

end RemoteCall.Request
