import XmipNet.Http2.Receive
import XmipNet.Words

/-!
# How long the words of a breach are

What breaches the connection is told to the peer in the words of a `GOAWAY`.
They name a number or two that the wire's words hold, and so are a few octets,
whatever the peer has sent.
-/

namespace XmipNet

namespace Text

/-- A text of at most `most` octets. -/
def Within (most : Nat) (text : String) : Prop :=
  (octets text).length ≤ most

instance (most : Nat) (text : String) : Decidable (Within most text) :=
  inferInstanceAs (Decidable (_ ≤ _))

theorem Within.append
    {most more : Nat}
    {first second : String}
    (few : Within most first)
    (fewer : Within more second) :
    Within (most + more) (first ++ second) := by
  rw [Within, octets_append, List.length_append]
  exact Nat.add_le_add few fewer

theorem Within.mono
    {few most : Nat}
    {text : String}
    (within : Within few text)
    (less : few ≤ most) :
    Within most text :=
  Nat.le_trans within less

/-- A number of up to twenty digits. -/
theorem within_toString
    {number : Nat}
    (small : number < 10 ^ 20) :
    Within 20 (toString number) := by
  rw [Within, length_octets_toString]
  exact (Nat.length_toDigits_le_iff (by decide) (by decide)).mpr small

end Text

namespace Http2

open Fallible

namespace Violation

/-- Words of at most 256 octets. -/
def Terse (violation : Violation) : Prop :=
  Text.Within 256 violation.message

instance (violation : Violation) : Decidable violation.Terse :=
  inferInstanceAs (Decidable (Text.Within _ _))

/-- A number between words. -/
theorem terse_number
    (code : ErrorCode)
    {before after : String}
    {number : Nat}
    (opens : Text.Within 64 before)
    (small : number < 10 ^ 20)
    (closes : Text.Within 64 after) :
    Terse ⟨code, before ++ toString number ++ after⟩ :=
  Text.Within.mono ((opens.append (Text.within_toString small)).append closes)
    (by decide)

/-- A number that ends the words. -/
theorem terse_last
    (code : ErrorCode)
    {before : String}
    {number : Nat}
    (opens : Text.Within 64 before)
    (small : number < 10 ^ 20) :
    Terse ⟨code, before ++ toString number⟩ :=
  Text.Within.mono (opens.append (Text.within_toString small)) (by decide)

/-- A number after words, and another that ends them. -/
theorem terse_numbers
    (code : ErrorCode)
    {before between after : String}
    {first second : Nat}
    (opens : Text.Within 64 before)
    (small : first < 10 ^ 20)
    (parts : Text.Within 64 between)
    (smaller : second < 10 ^ 20)
    (closes : Text.Within 64 after) :
    Terse ⟨code,
      before ++ toString first ++ between ++ toString second ++ after⟩ :=
  Text.Within.mono ((((opens.append (Text.within_toString small)).append
    parts).append (Text.within_toString smaller)).append closes) (by decide)

end Violation

open Violation (Terse)

/-! ## Windows and frames -/

namespace Window

theorem terse_take
    {window : Window}
    {octets : Nat}
    (filled : 0 ≤ window.value)
    (few : octets < 10 ^ 20) :
    FailsAs Terse (window.take octets) := by
  rw [take]
  split
  next short =>
    obtain ⟨value⟩ := window
    obtain ⟨number, rfl⟩ := Int.eq_ofNat_of_zero_le filled
    have small : number < 10 ^ 20 := Nat.lt_trans (Int.ofNat_lt.mp short) few
    exact failsAs_error (Text.Within.mono
      (((Text.within_toString few).append (by decide : Text.Within 64 _)).append
        (Text.within_toString small)) (by decide))
  · exact failsAs_ok _

theorem terse_shift
    {window : Window}
    {delta : Int}
    (small : window.value + delta < 10 ^ 20) :
    FailsAs Terse (window.shift delta) := by
  simp only [shift]
  split
  next exceeds =>
    have filled : 0 ≤ window.value + delta :=
      (Int.natCast_nonneg _).trans exceeds.le
    generalize window.value + delta = moved at *
    obtain ⟨number, rfl⟩ := Int.eq_ofNat_of_zero_le filled
    have few : number < 10 ^ 20 := by exact_mod_cast small
    exact failsAs_error (Violation.terse_number _ (by decide) few (by decide))
  · exact failsAs_ok _

theorem terse_grant
    {window : Window}
    {increment : Nat}
    (small : window.value + increment < 10 ^ 20) :
    FailsAs Terse (window.grant increment) := by
  rw [grant]
  split
  · exact failsAs_error (by decide)
  · exact terse_shift small

end Window

theorem Frame.terse_content (frame : Frame) : FailsAs Terse frame.content := by
  have unpadded (pad : Nat) (body : List UInt8) :
      FailsAs Terse (if body.length < pad then
        .error (.protocol "the padding is longer than the frame")
      else
        .ok (body.take (body.length - pad)) : Except Violation _) := by
    split
    · exact failsAs_error (by decide)
    · exact failsAs_ok _
  have unprioritized (pad : Nat) (body : List UInt8) :
      FailsAs Terse (if frame.kind = .headers ∧ frame.has priority then
        if 5 ≤ body.length then
          if (body.drop 5).length < pad then
            .error (.protocol "the padding is longer than the frame")
          else
            .ok ((body.drop 5).take ((body.drop 5).length - pad))
        else
          .error (.frameSize "a HEADERS too short for its priority")
      else if body.length < pad then
        .error (.protocol "the padding is longer than the frame")
      else
        .ok (body.take (body.length - pad)) : Except Violation _) := by
    split
    · split
      · exact unpadded pad _
      · exact failsAs_error (by decide)
    · exact unpadded pad body
  rw [content]
  split
  · split
    · exact failsAs_error (by decide)
    next length rest _ => exact unprioritized length.toNat rest
  · exact unprioritized 0 frame.payload

theorem Connection.terse_soleWord
    (frame : Frame)
    {refusal : String}
    (few : Text.Within 256 refusal) :
    FailsAs Terse (soleWord frame refusal) := by
  rw [soleWord]
  split
  · split
    · exact failsAs_ok _
    · exact failsAs_error few
  · exact failsAs_error few

theorem Kind.within_debug (kind : Kind) : Text.Within 64 kind.debug := by
  cases kind with
  | unknown code =>
      have small : code.toNat < 10 ^ 20 :=
        Nat.lt_trans code.toNat_lt (by decide)
      exact Text.Within.mono (((by decide : Text.Within 16 "Unknown(").append
        (Text.within_toString small)).append (by decide : Text.Within 16 ")"))
          (by decide)
  | _ => decide

/-- A frame that is too long is refused in a few octets. -/
theorem Frame.terse_read
    {wire : Wire}
    {maxSize : Nat}
    (small : maxSize < 10 ^ 20)
    {violation : Violation}
    (reads : (read wire maxSize).1 = .error (.violation violation)) :
    Terse violation := by
  rw [read] at reads
  split at reads
  · split at reads <;> cases reads
  · cases reads
  next header after _ =>
    simp only at reads
    split at reads
    · cases reads
      have word : (header.take 3).length ≤ 3 := List.length_take_le _ _
      have read : BigEndian.read (header.take 3) < 256 ^ 3 :=
        Nat.lt_of_lt_of_le (BigEndian.read_lt _)
          (Nat.pow_le_pow_right (by decide) word)
      exact Violation.terse_numbers .frameSize (by decide)
        (Nat.lt_trans read (by decide)) (by decide) small (by decide)
    · split at reads <;> cases reads

/-! ## Settings -/

namespace Settings

theorem terse_set
    (settings : Settings)
    (id : Nat)
    {value : Nat}
    (small : value < 10 ^ 20)
    (client : Bool) :
    FailsAs Terse (settings.set id value client) := by
  unfold set
  split
  · exact failsAs_ok _
  · split
    · have sender : Text.Within 64 (if client then "server" else "client") := by
        cases client <;> decide
      exact failsAs_error (Text.Within.mono
        ((((by decide : Text.Within 64 _).append
          (Text.within_toString small)).append
            (by decide : Text.Within 64 _)).append sender) (by decide))
    · exact failsAs_ok _
  · exact failsAs_ok _
  · split
    · exact failsAs_error
        (Violation.terse_number _ (by decide) small (by decide))
    · exact failsAs_ok _
  · split
    · exact failsAs_ok _
    · exact failsAs_error
        (Violation.terse_number _ (by decide) small (by decide))
  all_goals exact failsAs_ok _

theorem terse_applyPairs
    (settings : Settings)
    (client : Bool)
    (payload : List UInt8) :
    FailsAs Terse (settings.applyPairs client payload).1 := by
  fun_induction settings.applyPairs client payload with
  | case1 settings a b c d e f rest changed sets inductionHypothesis =>
      exact inductionHypothesis
  | case2 settings a b c d e f rest violation sets =>
      have small : BigEndian.read [c, d, e, f] < 10 ^ 20 :=
        Nat.lt_trans (BigEndian.read_lt [c, d, e, f])
          (show 256 ^ 4 < 10 ^ 20 by decide)
      exact failsAs_error (terse_set settings _ small client violation sets)
  | case3 => exact failsAs_ok _

theorem terse_apply
    (settings : Settings)
    {payload : List UInt8}
    (small : payload.length < 10 ^ 20)
    (client : Bool) :
    FailsAs Terse (settings.apply payload client).1 := by
  rw [apply]
  split
  · exact failsAs_error
      (Violation.terse_number _ (by decide) small (by decide))
  · exact terse_applyPairs settings client payload

end Settings

/-! ## Header blocks -/

namespace Hpack

theorem Integer.le_of_continued
    {usizeBits : Nat}
    {input : List UInt8}
    {value shift used read taken : Nat}
    (reads : continued usizeBits input value shift used = .ok (read, taken)) :
    read ≤ largest := by
  fun_induction continued usizeBits input value shift used with
  | case1 => cases reads
  | case2 octet rest value shift used within group next fits last =>
      obtain ⟨same, _⟩ := Prod.mk.injEq _ _ _ _ ▸ Except.ok.inj reads
      exact same ▸ fits.2
  | case3 octet rest value shift used within group next fits more
      inductionHypothesis => exact inductionHypothesis reads
  | case4 => cases reads
  | case5 => cases reads

theorem Integer.le_of_decode
    {input : List UInt8}
    {prefixBits read taken : Nat}
    (reads : decode input prefixBits = .ok (read, taken)) :
    read ≤ largest := by
  cases input with
  | nil => cases reads
  | cons head rest =>
      simp only [decode, decodeOn] at reads
      split at reads
      · cases reads
        have octet := head.toNat_lt
        have first : head.toNat &&& (2 ^ prefixBits - 1) ≤ head.toNat :=
          Nat.and_le_left
        exact (first.trans octet.le).trans (by decide)
      · exact le_of_continued reads

theorem Integer.terse_continued
    (usizeBits : Nat)
    (input : List UInt8)
    (value shift used : Nat) :
    FailsAs Terse (continued usizeBits input value shift used) := by
  fun_induction continued usizeBits input value shift used with
  | case1 => exact failsAs_error (by decide)
  | case2 => exact failsAs_ok _
  | case3 octet rest value shift used within group next fits more
      inductionHypothesis => exact inductionHypothesis
  | case4 => exact failsAs_error (by decide)
  | case5 => exact failsAs_error (by decide)

theorem Integer.terse_decode
    (input : List UInt8)
    (prefixBits : Nat) :
    FailsAs Terse (decode input prefixBits) := by
  cases input with
  | nil => exact failsAs_error (by decide)
  | cons head rest =>
      simp only [decode, decodeOn]
      split
      · exact failsAs_ok _
      · exact terse_continued _ _ _ _ _

theorem Huffman.terse_follow
    (walk : Walk)
    (bit : Bool) :
    FailsAs Terse (walk.follow tree bit) := by
  rw [Walk.follow]
  split
  · exact failsAs_ok _
  · split
    · exact failsAs_error (by decide)
    · exact failsAs_ok _
  · exact failsAs_error (by decide)

theorem Huffman.terse_decode (input : List UInt8) :
    FailsAs Terse (decode input) := by
  refine failsAs_bind ?_ fun walk _ => ?_
  · generalize ({ node := 0, depth := 0, allOnes := true, out := [] } : Walk) =
      walk
    generalize input.flatMap octetBits = bits
    induction bits generalizing walk with
    | nil => exact failsAs_ok walk
    | cons bit rest inductionHypothesis =>
        rw [List.foldlM_cons]
        exact failsAs_bind (terse_follow walk bit)
          fun next _ => inductionHypothesis next
  · split
    · exact failsAs_error (by decide)
    · exact failsAs_ok _

theorem Literal.terse_decode (input : List UInt8) :
    FailsAs Terse (decode input) := by
  refine failsAs_bind (Integer.terse_decode input 7) fun read _ => ?_
  obtain ⟨length, start⟩ := read
  simp only
  split
  · split
    · refine failsAs_bind (Huffman.terse_decode _) fun bytes _ => ?_
      split
      · exact failsAs_ok _
      · exact failsAs_error (by decide)
    · refine failsAs_bind (failsAs_ok _) fun bytes _ => ?_
      split
      · exact failsAs_ok _
      · exact failsAs_error (by decide)
  · exact failsAs_error (by decide)

theorem Table.terse_get
    (table : Table)
    {index : Nat}
    (small : index ≤ Integer.largest) :
    FailsAs Terse (table.get index) := by
  rw [get]
  split
  · exact failsAs_ok _
  · split
    · exact failsAs_ok _
    · exact failsAs_error (Violation.terse_last _ (by decide)
        (Nat.lt_of_le_of_lt small (by decide)))

namespace Decoder

theorem terse_literal
    (decoder : Decoder)
    (input : List UInt8)
    (prefixBits : Nat) :
    FailsAs Terse (decoder.literal input prefixBits) := by
  refine failsAs_bind (Integer.terse_decode input prefixBits)
    fun read reads => ?_
  obtain ⟨index, start⟩ := read
  simp only
  split
  · exact failsAs_bind (Literal.terse_decode _) fun _ _ =>
      failsAs_bind (Literal.terse_decode _) fun _ _ => failsAs_ok _
  · exact failsAs_bind (Table.terse_get _ (Integer.le_of_decode reads))
      fun _ _ => failsAs_bind (Literal.terse_decode _) fun _ _ => failsAs_ok _

theorem terse_representation
    {decoder : Decoder}
    (small : decoder.limit < 10 ^ 20)
    (fields : List Field)
    (rest : List UInt8)
    (first : UInt8) :
    FailsAs Terse (decoder.representation fields rest first) := by
  rw [representation]
  split
  · exact failsAs_bind (Integer.terse_decode rest 7) fun _ reads =>
      failsAs_bind (Table.terse_get _ (Integer.le_of_decode reads))
        fun _ _ => failsAs_ok _
  · split
    · exact failsAs_bind (terse_literal decoder rest 6)
        fun _ _ => failsAs_ok _
    · split
      · split
        · exact failsAs_error (by decide)
        · refine failsAs_bind (Integer.terse_decode rest 5)
            fun read reads => ?_
          obtain ⟨size, used⟩ := read
          simp only
          split
          · have few : size < 10 ^ 20 :=
              Nat.lt_of_le_of_lt (Integer.le_of_decode reads) (by decide)
            exact failsAs_error (Violation.terse_numbers .compression
              (by decide) few (by decide) small (by decide))
          · exact failsAs_ok _
      · exact failsAs_bind (terse_literal decoder rest 4)
          fun _ _ => failsAs_ok _

theorem limit_of_representation
    {decoder after : Decoder}
    {fields fieldsAfter : List Field}
    {rest : List UInt8}
    {first : UInt8}
    {used : Nat}
    (reads : decoder.representation fields rest first =
      .ok (fieldsAfter, used, after)) :
    after.limit = decoder.limit := by
  simp only [representation, bind, Except.bind] at reads
  split at reads
  · split at reads
    · cases reads
    · split at reads
      · cases reads
      · cases reads
        rfl
  · split at reads
    · split at reads
      · cases reads
      · cases reads
        rfl
    · split at reads
      · split at reads
        · cases reads
        · split at reads
          · cases reads
          · split at reads
            · cases reads
            · cases reads
              rfl
      · split at reads
        · cases reads
        · cases reads
          rfl

/-- A block that cannot be read is refused in a few octets, and what the decoder
lets its table grow to stays. -/
theorem terse_decode
    {decoder : Decoder}
    (small : decoder.limit < 10 ^ 20)
    (octets : List UInt8) :
    FailsAs Terse (decoder.decode octets).1 ∧
      (decoder.decode octets).2.limit = decoder.limit := by
  rw [decode]
  generalize ([] : List Field) = fields
  fun_induction decodeFrom decoder fields octets with
  | case1 decoder fields => exact ⟨failsAs_ok _, rfl⟩
  | case2 decoder fields first tail violation reads =>
      exact ⟨failsAs_error (terse_representation small _ _ _ violation reads),
        rfl⟩
  | case3 decoder fields first tail fieldsAfter used after reads
      inductionHypothesis =>
      have kept := limit_of_representation reads
      have goes := inductionHypothesis (kept ▸ small)
      exact ⟨goes.1, goes.2.trans kept⟩

end Decoder
end Hpack
end Http2
end XmipNet
