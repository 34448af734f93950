import Carta.Proofs.Encoding
import Carta.Proofs.MapfileParts
import Carta.Sink

/-!
# Writing into a sink that may run full

A sink that takes at least one byte in each call, however few, and refuses once it holds its limit
ends up with as much of the bytes as there is room for. None is lost and none comes twice, wherever
the calls cut the bytes. So a mapfile is complete in the sink exactly when there is room for it.
-/

namespace Carta.Sink

/-- A sink that takes at least one byte and at most `chunk` bytes in each call until it holds
`limit` bytes. -/
structure IsSteady (sink : Sink) (chunk limit : Nat) : Prop where
  chunk_eq : sink.chunk = some chunk
  one_le_chunk : 1 ≤ chunk
  limit_eq : sink.limit = some limit
  length_le : sink.bytes.length ≤ limit
  portion_pos : ∀ call most, 0 < most → 0 < sink.portion call most

/-- The sink after a call that took these bytes. -/
def took (sink : Sink) (taken : List UInt8) : Sink :=
  { sink.called with bytes := sink.bytes ++ taken }

variable {sink : Sink} {chunk limit count taken : Nat}

namespace IsSteady

/-- A sink that holds its limit is full. -/
theorem accepts_of_full (h : sink.IsSteady chunk limit) (hfull : sink.bytes.length = limit) :
    sink.accepts count = .error .storageFull := by
  simp only [accepts, h.limit_eq, Option.map_some, hfull, Nat.sub_self, if_pos]

/-- A call to a sink with room for more takes some of the bytes, and no more than there is room
for. -/
theorem accepts_of_room (h : sink.IsSteady chunk limit) (hroom : sink.bytes.length < limit)
    (hcount : 0 < count) :
    ∃ taken, sink.accepts count = .ok taken ∧
      taken ≤ chunk ∧ taken ≤ count ∧ sink.bytes.length + taken ≤ limit := by
  have hone := h.one_le_chunk
  have hnone : ¬ some (limit - sink.bytes.length) = some 0 := by
    rw [Option.some_inj]
    omega
  simp only [accepts, h.chunk_eq, h.limit_eq, Option.map_some, Option.getD_some, if_neg hnone]
  generalize hmost : min (min count chunk) (limit - sink.bytes.length) = most
  have hportion := h.portion_pos sink.calls most (by omega)
  refine ⟨min most (sink.portion sink.calls most), if_neg (by omega), ?_⟩
  omega

/-- Only a full sink refuses. -/
theorem full_of_error (h : sink.IsSteady chunk limit) (hcount : 0 < count) {fault : Storage.Fault}
    (haccepts : sink.accepts count = .error fault) :
    sink.bytes.length = limit ∧ fault = .storageFull := by
  have hfull : sink.bytes.length = limit := by
    by_contra hne
    have hlength := h.length_le
    obtain ⟨taken, htaken, -⟩ :=
      h.accepts_of_room (by omega : sink.bytes.length < limit) hcount
    cases haccepts.symm.trans htaken
  exact ⟨hfull, Except.error.inj (haccepts.symm.trans (h.accepts_of_full hfull))⟩

/-- What a sink takes is no more than it is given, and no more than there is room for. -/
theorem fits_of_ok (h : sink.IsSteady chunk limit) (hcount : 0 < count)
    (haccepts : sink.accepts count = .ok taken) :
    taken ≤ count ∧ sink.bytes.length + taken ≤ limit := by
  have hroom : sink.bytes.length < limit := by
    by_contra hnot
    have hlength := h.length_le
    cases (h.accepts_of_full (by omega)).symm.trans haccepts
  obtain ⟨taken', htaken, -, hfits⟩ := h.accepts_of_room hroom hcount
  obtain rfl := Except.ok.inj (haccepts.symm.trans htaken)
  exact hfits

/-- The sink is as steady after a call. -/
theorem took (h : sink.IsSteady chunk limit) {bytes : List UInt8}
    (hfits : sink.bytes.length + bytes.length ≤ limit) : (sink.took bytes).IsSteady chunk limit where
  chunk_eq := h.chunk_eq
  one_le_chunk := h.one_le_chunk
  limit_eq := h.limit_eq
  length_le := by simpa [Sink.took] using hfits
  portion_pos := h.portion_pos

/-- As many bytes are written as there is room for, and the sink is full when some are left. -/
theorem writeAll_eq (h : sink.IsSteady chunk limit) (bytes : List UInt8) :
    ∃ calls, sink.writeAll bytes =
      (if sink.bytes.length + bytes.length ≤ limit then .ok () else .error .storageFull,
        { sink with bytes := sink.bytes ++ bytes.take (limit - sink.bytes.length), calls }) := by
  fun_induction writeAll sink bytes with
  | case1 sink =>
    have hlength := h.length_le
    exact ⟨sink.calls, by simp [hlength]⟩
  | case2 sink b rest fault hfault =>
    obtain ⟨hfull, rfl⟩ := h.full_of_error rest.length.succ_pos hfault
    refine ⟨sink.called.calls, ?_⟩
    rw [if_neg (by rw [List.length_cons]; omega), hfull, Nat.sub_self, List.take_zero,
      List.append_nil]
    rfl
  | case3 sink b rest taken htaken ih =>
    obtain ⟨hcount, hfits⟩ := h.fits_of_ok rest.length.succ_pos htaken
    generalize hbytes : b :: rest = bytes at *
    have hlength : (bytes.take taken).length = taken := by
      rw [List.length_take, ← hbytes, List.length_cons]
      omega
    obtain ⟨calls, hwrite⟩ := ih (h.took (by rw [hlength]; exact hfits))
    refine ⟨calls, hwrite.trans ?_⟩
    have hsplit : sink.bytes ++ bytes.take taken ++
        (bytes.drop taken).take (limit - (sink.bytes.length + taken)) =
        sink.bytes ++ bytes.take (limit - sink.bytes.length) := by
      rw [List.append_assoc, ← List.take_add]
      congr 3
      omega
    have hleft : sink.bytes.length + taken + (bytes.length - taken) =
        sink.bytes.length + bytes.length := by
      rw [← hbytes, List.length_cons]
      omega
    simp only [List.length_append, hlength, List.length_drop, hsplit, hleft]
    rfl

end IsSteady

/-- The longest beginning of `bytes` that a sink with this limit has room for. -/
structure IsLongestFit (sink : Sink) (limit : Nat) (bytes part : List UInt8) : Prop where
  beginning : part <+: bytes
  fits : sink.bytes.length + part.length ≤ limit
  longest : ∀ other, other <+: bytes → sink.bytes.length + other.length ≤ limit → other <+: part

/-- As many bytes as there is room for are the longest beginning that fits. -/
theorem IsSteady.isLongestFit (h : sink.IsSteady chunk limit) (bytes : List UInt8) :
    sink.IsLongestFit limit bytes (bytes.take (limit - sink.bytes.length)) where
  beginning := List.take_prefix _ _
  fits := by
    have hlength := h.length_le
    rw [List.length_take]
    omega
  longest other hother hfits := by
    rw [List.prefix_take_iff]
    exact ⟨hother, by omega⟩

end Carta.Sink

namespace Carta.Mapfile

open Carta.Project (Document)

variable {sink : Sink} {chunk limit : Nat} {options : Options} {document : Document}
  {mapfile : String}

/-- A project without a mapfile leaves the sink as it was. -/
theorem write_of_render_error {error : Error} (h : render options document = .error error) :
    write options document sink = (.error error, sink) := by
  rw [write, h]

/-- A mapfile for which there is room is written and flushed. -/
theorem write_of_room (h : sink.IsSteady chunk limit)
    (hrender : render options document = .ok mapfile)
    (hroom : sink.bytes.length + (Text.Utf8.encode mapfile).length ≤ limit) :
    ∃ calls, write options document sink =
      (.ok (), { sink with
        bytes := sink.bytes ++ Text.Utf8.encode mapfile, calls, flushes := sink.flushes + 1 }) := by
  obtain ⟨calls, hwrite⟩ := h.writeAll_eq (Text.Utf8.encode mapfile)
  rw [if_pos hroom, List.take_of_length_le (by omega)] at hwrite
  exact ⟨calls, by rw [write, hrender]; simp only [hwrite, Sink.flush]⟩

/-- Of a mapfile for which there is no room as much is written as fits, and nothing is flushed. -/
theorem write_of_no_room (h : sink.IsSteady chunk limit)
    (hrender : render options document = .ok mapfile)
    (hroom : limit < sink.bytes.length + (Text.Utf8.encode mapfile).length) :
    ∃ part calls, sink.IsLongestFit limit (Text.Utf8.encode mapfile) part ∧
      write options document sink =
        (.error (.storage .storageFull), { sink with bytes := sink.bytes ++ part, calls }) := by
  obtain ⟨calls, hwrite⟩ := h.writeAll_eq (Text.Utf8.encode mapfile)
  rw [if_neg (Nat.not_le.mpr hroom)] at hwrite
  exact ⟨_, calls, h.isLongestFit _, by rw [write, hrender]; simp only [hwrite]⟩

/-- Into a sink that takes at least one byte in each call until it is full a mapfile is written
exactly when there is one and there is room for it: all of it, once, behind what the sink held, and
flushed. Without a mapfile the sink gets no call. Without room it gets the longest beginning that
fits, and no flush. -/
theorem write_steady (h : sink.IsSteady chunk limit) (options : Options) (document : Document) :
    ((write options document sink).1 = .ok () ↔
      ∃ mapfile, render options document = .ok mapfile ∧
        sink.bytes.length + (Text.Utf8.encode mapfile).length ≤ limit) ∧
    (∀ error, render options document = .error error →
      write options document sink = (.error error, sink)) ∧
    ∀ mapfile, render options document = .ok mapfile →
      (sink.bytes.length + (Text.Utf8.encode mapfile).length ≤ limit → ∃ calls,
        write options document sink = (.ok (), { sink with
          bytes := sink.bytes ++ Text.Utf8.encode mapfile, calls, flushes := sink.flushes + 1 })) ∧
      (limit < sink.bytes.length + (Text.Utf8.encode mapfile).length → ∃ part calls,
        sink.IsLongestFit limit (Text.Utf8.encode mapfile) part ∧
        write options document sink =
          (.error (.storage .storageFull), { sink with bytes := sink.bytes ++ part, calls })) := by
  refine ⟨?_, fun _ => write_of_render_error,
    fun _ hrender => ⟨write_of_room h hrender, write_of_no_room h hrender⟩⟩
  constructor
  · intro hok
    cases hrender : render options document with
    | error error => simp [write_of_render_error hrender] at hok
    | ok mapfile =>
      refine ⟨mapfile, rfl, Nat.not_lt.mp fun hroom => ?_⟩
      obtain ⟨_, _, -, hwrite⟩ := write_of_no_room h hrender hroom
      simp [hwrite] at hok
  · rintro ⟨mapfile, hrender, hroom⟩
    obtain ⟨calls, hwrite⟩ := write_of_room h hrender hroom
    rw [hwrite]

/-- A sink that holds two bytes and takes one and up to three more in turn until it is full. -/
def narrowSink (limit : Nat) : Sink where
  bytes := [1, 2]
  chunk := some 3
  limit := some limit
  portion call most := if call % 2 = 0 then 1 else most

/-- The narrow sink takes one to three bytes in each call until it is full. -/
theorem isSteady_narrowSink (h : 2 ≤ limit) : (narrowSink limit).IsSteady 3 limit where
  chunk_eq := rfl
  one_le_chunk := by decide
  limit_eq := rfl
  length_le := h
  portion_pos call most hmost := by
    simp only [narrowSink]
    split <;> omega

/-- A mapfile is not empty. -/
theorem encode_ne_nil (h : render options document = .ok mapfile) :
    Text.Utf8.encode mapfile ≠ [] := by
  intro hnil
  obtain rfl : mapfile = "" := Text.Utf8.encode_injective (hnil.trans rfl)
  obtain ⟨_, _, _, _, -, -, -, -, htext⟩ := render_eq_ok_iff.mp h
  have hlength := congrArg String.length htext
  have hend : "END".length = 3 := rfl
  simp only [String.length_append, hend, String.length_empty] at hlength
  omega

/-- The mapfile of the survey is complete in a sink that it fills, and lacks the last byte in one
that is smaller by one. -/
theorem write_narrowSink : ∃ mapfile, render {} surveyDocument = .ok mapfile ∧
    (∃ calls, write {} surveyDocument (narrowSink (2 + (Text.Utf8.encode mapfile).length)) =
      (.ok (), { narrowSink (2 + (Text.Utf8.encode mapfile).length) with
        bytes := [1, 2] ++ Text.Utf8.encode mapfile, calls, flushes := 1 })) ∧
    ∃ calls, write {} surveyDocument (narrowSink (1 + (Text.Utf8.encode mapfile).length)) =
      (.error (.storage .storageFull), { narrowSink (1 + (Text.Utf8.encode mapfile).length) with
        bytes := [1, 2] ++ (Text.Utf8.encode mapfile).dropLast, calls }) := by
  obtain ⟨mapfile, hrender⟩ := exists_eq_ok_of_isOk isOk_render_surveyDocument
  have hpos := List.length_pos_of_ne_nil (encode_ne_nil hrender)
  refine ⟨mapfile, hrender, ?_, ?_⟩
  · obtain ⟨-, -, hwrite⟩ :=
      write_steady (isSteady_narrowSink (Nat.le_add_right 2 _)) {} surveyDocument
    exact (hwrite mapfile hrender).1 (Nat.le_refl _)
  · have hsteady : (narrowSink (1 + (Text.Utf8.encode mapfile).length)).IsSteady 3 _ :=
      isSteady_narrowSink (by omega)
    obtain ⟨-, -, hwrite⟩ := write_steady hsteady {} surveyDocument
    obtain ⟨part, calls, hpart, hcut⟩ := (hwrite mapfile hrender).2 (by simp [narrowSink])
    -- All but the last byte fits, and all bytes do not.
    have hfits := hpart.fits
    have hshort := hpart.longest _ (List.dropLast_prefix _) (by
      simp only [narrowSink, List.length_cons, List.length_nil, List.length_dropLast]
      omega)
    have heq : part = (Text.Utf8.encode mapfile).dropLast := by
      refine (hshort.eq_of_length_le ?_).symm
      simp only [narrowSink, List.length_cons, List.length_nil] at hfits
      rw [List.length_dropLast]
      omega
    exact ⟨calls, heq ▸ hcut⟩

end Carta.Mapfile
