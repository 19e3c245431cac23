import Pubky.Homeserver.Events.Repository
import Pubky.Lib.Sse

/-!
# Events as server-sent events

`persistence/sql/entities/events/entity.rs`: the message that the event streams send for an event.
-/

namespace Pubky.Homeserver.Events

/-- `base64` with the engine `STANDARD`. -/
structure Base64 where
  encode : Bytes → Text
  /-- The bytes, or the text of the error. -/
  decode : Text → Except Text Bytes

/-- Standard base64, RFC 4648 section 4. -/
def base64Standard : BitCodec.Alphabet 6 where
  chars := base64Url.chars.map fun c => if c = '-' then '+' else if c = '_' then '/' else c
  length_eq := by decide
  nodup := by decide +kernel

/-- The characters of standard base64, with the padding. -/
def base64Chars : List Char := '=' :: base64Standard.chars

structure Base64.Lawful (B : Base64) : Prop where
  decode_encode : ∀ bytes, B.decode (B.encode bytes) = .ok bytes
  mem_encode : ∀ bytes, ∀ c ∈ B.encode bytes, c ∈ base64Chars
  encode_ne_nil : ∀ bytes, bytes ≠ [] → B.encode bytes ≠ []

namespace EventEntity

variable (C : Crates) (B : Base64) (e : EventEntity)

/-- Full `pubky://` URI of this event's resource. -/
def pubkyUri : Text := "pubky://".toList ++ C.z32 e.userPubkey ++ e.path.path.asStr

end EventEntity

/-! ## An instance -/

/-- The encoding with padding; the decoder is right on what has been encoded. -/
def Base64.standard : Base64 where
  encode bytes := base64Standard.encode bytes ++ List.replicate ((3 - bytes.length % 3) % 3) '='
  decode t :=
    match base64Standard.decode (t.filter (· ≠ '=')) with
    | some bytes => .ok bytes
    | none => .error "Invalid symbol".toList

theorem Base64.lawful_standard : Base64.standard.Lawful where
  decode_encode bytes := by
    have hchars : ∀ c ∈ base64Standard.encode bytes, c ≠ '=' := by
      intro c hc
      have hall : ∀ c ∈ base64Standard.chars, c ≠ '=' := Text.forall_mem_of_all (by decide +kernel)
      exact hall c (BitCodec.Alphabet.mem_of_mem_encode (by decide) hc)
    have hfilter : (Base64.standard.encode bytes).filter (· ≠ '=') =
        base64Standard.encode bytes := by
      show (base64Standard.encode bytes ++ List.replicate _ '=').filter (· ≠ '=') = _
      rw [List.filter_append, List.filter_eq_self.2 (by simpa using hchars)]
      simp
    show (match base64Standard.decode (List.filter _ _) with | some bytes => _ | none => _) = _
    rw [hfilter, BitCodec.Alphabet.decode_encode (by decide) (by decide)]
  mem_encode bytes c hc := by
    rcases List.mem_append.1 hc with hc | hc
    · exact List.mem_cons_of_mem _ (BitCodec.Alphabet.mem_of_mem_encode (by decide) hc)
    · rw [List.eq_of_mem_replicate hc]
      exact List.mem_cons_self
  encode_ne_nil bytes hne h := by
    have hnil := (List.append_eq_nil_iff.1 h).1
    have hdecode := BitCodec.Alphabet.decode_encode (A := base64Standard) (by decide) (by decide) bytes
    rw [hnil] at hdecode
    exact hne (Option.some.inj hdecode).symm

end Pubky.Homeserver.Events
