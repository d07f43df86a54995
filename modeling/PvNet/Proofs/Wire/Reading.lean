import PvNet.Wire.Decode
set_option autoImplicit false

/-!
# Reading back what was written

`Decoder.Reads` says that a decoder takes exactly the given octets off every input
that starts with them.  Because what follows is arbitrary, readings compose: the
octets of a sequence of decoders are the octets of each, one after the other.

Below it the primitive formats are read back one by one.
-/

namespace PvNet

namespace Decoder

variable {σ α β : Type}

/-! ## Running a decoder -/

@[simp] theorem run_pure (a : α) (o : ByteOrder) (s : σ) (bs : Bytes) :
    (pure a : Decoder σ α).run o s bs = ⟨.ok a, s, bs⟩ := rfl

@[simp] theorem run_fail (e : WireError) (o : ByteOrder) (s : σ) (bs : Bytes) :
    (fail e : Decoder σ α).run o s bs = ⟨.error e, s, bs⟩ := rfl

@[simp] theorem run_get (o : ByteOrder) (s : σ) (bs : Bytes) :
    (get : Decoder σ σ).run o s bs = ⟨.ok s, s, bs⟩ := rfl

@[simp] theorem run_modify (f : σ → σ) (o : ByteOrder) (s : σ) (bs : Bytes) :
    (modify f).run o s bs = ⟨.ok (), f s, bs⟩ := rfl

@[simp] theorem run_order (o : ByteOrder) (s : σ) (bs : Bytes) :
    (order : Decoder σ ByteOrder).run o s bs = ⟨.ok o, s, bs⟩ := rfl

theorem run_bind (d : Decoder σ α) (f : α → Decoder σ β) (o : ByteOrder) (s : σ) (bs : Bytes) :
    (d >>= f).run o s bs =
      match d.run o s bs with
      | ⟨.ok a, s', rest⟩ => (f a).run o s' rest
      | ⟨.error e, s', rest⟩ => ⟨.error e, s', rest⟩ := rfl

/-- A decoder that goes on after another one, given what the first one did. -/
theorem run_bind_of_ok {d : Decoder σ α} {f : α → Decoder σ β} {o : ByteOrder} {s s' : σ}
    {bs rest : Bytes} {a : α} (h : d.run o s bs = ⟨.ok a, s', rest⟩) :
    (d >>= f).run o s bs = (f a).run o s' rest := by
  rw [run_bind, h]

theorem run_bind_of_error {d : Decoder σ α} {f : α → Decoder σ β} {o : ByteOrder} {s s' : σ}
    {bs rest : Bytes} {e : WireError} (h : d.run o s bs = ⟨.error e, s', rest⟩) :
    (d >>= f).run o s bs = ⟨.error e, s', rest⟩ := by
  rw [run_bind, h]

theorem run_octet_bind (f : UInt8 → Decoder σ α) (o : ByteOrder) (s : σ) (b : UInt8) (bs : Bytes) :
    (octet >>= f).run o s (b :: bs) = (f b).run o s bs := rfl

theorem run_map_congr {d d' : Decoder σ α} {o : ByteOrder} {s : σ} {bs bs' : Bytes}
    (h : d.run o s bs = d'.run o s bs') (f : α → β) :
    (f <$> d).run o s bs = (f <$> d').run o s bs' := by
  show (d >>= fun a => pure (f a)).run o s bs = (d' >>= fun a => pure (f a)).run o s bs'
  rw [run_bind, run_bind, h]

theorem result_map (f : α → β) (d : Decoder σ α) (o : ByteOrder) (s : σ) (bs : Bytes) :
    ((f <$> d).run o s bs).result = (d.run o s bs).result.map f := by
  show ((d >>= fun a => pure (f a)).run o s bs).result = _
  rcases hd : d.run o s bs with ⟨e | a, s', rest⟩
  · rw [run_bind_of_error hd]
    rfl
  · rw [run_bind_of_ok hd]
    rfl

/-- Two decoders in a row succeed only if the first succeeds and the second goes on from there. -/
theorem exists_of_run_bind {d : Decoder σ α} {f : α → Decoder σ β} {o : ByteOrder} {s s' : σ}
    {bs rest : Bytes} {b : β} (h : (d >>= f).run o s bs = ⟨.ok b, s', rest⟩) :
    ∃ a t cs, d.run o s bs = ⟨.ok a, t, cs⟩ ∧ (f a).run o t cs = ⟨.ok b, s', rest⟩ := by
  rcases hd : d.run o s bs with ⟨e | a, t, cs⟩
  · rw [run_bind_of_error hd] at h
    cases h
  · rw [run_bind_of_ok hd] at h
    exact ⟨a, t, cs, rfl, h⟩

instance : LawfulMonad (Decoder σ) :=
  LawfulMonad.mk' (Decoder σ)
    (fun d => by
      funext o s bs
      show (d >>= pure).run o s bs = d.run o s bs
      rw [run_bind]
      rcases d.run o s bs with ⟨e | a, s', rest⟩
      · rfl
      · rfl)
    (fun _ _ => rfl)
    (fun d f g => by
      funext o s bs
      show ((d >>= f) >>= g).run o s bs = (d >>= fun a => f a >>= g).run o s bs
      rw [run_bind, run_bind, run_bind]
      rcases d.run o s bs with ⟨e | a, s', rest⟩
      · rfl
      · rfl)

/-! ## Repetition -/

/-- The items that are read stand behind those read before. -/
theorem timesOnto_acc (d : Decoder σ α) (o : ByteOrder) (n : Nat) (acc : List α) (s : σ)
    (bs : Bytes) :
    timesOnto d o n acc s bs =
      (times n d >>= fun as => pure (acc.reverse ++ as) : Decoder σ (List α)).run o s bs := by
  induction n generalizing acc s bs with
  | zero =>
    show (⟨.ok acc.reverse, s, bs⟩ : Outcome σ (List α)) = ⟨.ok (acc.reverse ++ []), s, bs⟩
    rw [List.append_nil]
  | succ n ih =>
    rcases h : d o s bs with ⟨e | a, s', rest⟩
    · have hrun : (times (n + 1) d).run o s bs = ⟨.error e, s', rest⟩ := by
        show timesOnto d o (n + 1) [] s bs = _
        rw [timesOnto, h]
      rw [timesOnto, h, run_bind_of_error hrun]
    · rw [timesOnto, h]
      show timesOnto d o n (a :: acc) s' rest = _
      rw [ih (a :: acc), run_bind, run_bind]
      have hrun : (times (n + 1) d).run o s bs = timesOnto d o n [a] s' rest := by
        show timesOnto d o (n + 1) [] s bs = _
        rw [timesOnto, h]
      rw [hrun, ih [a], run_bind]
      rcases (times n d).run o s' rest with ⟨e | as, s'', rest'⟩
      · rfl
      · simp

@[simp] theorem times_zero (d : Decoder σ α) : times 0 d = pure [] := rfl

/-- Repeating a decoder once more runs it in front of the others. -/
theorem times_succ (n : Nat) (d : Decoder σ α) :
    times (n + 1) d = d >>= fun a => times n d >>= fun as => pure (a :: as) := by
  funext o s bs
  show timesOnto d o (n + 1) [] s bs =
    (d >>= fun a => times n d >>= fun as => pure (a :: as)).run o s bs
  rcases h : d o s bs with ⟨e | a, s', rest⟩
  · rw [run_bind_of_error h, timesOnto, h]
  · rw [run_bind_of_ok h, timesOnto, h]
    exact timesOnto_acc d o n [a] s' rest

/-! ## Readings -/

/-- The decoder takes exactly `bs` off any input that starts with it: it reads `a` and takes the
state from `s` to `s'`. -/
def Reads (d : Decoder σ α) (o : ByteOrder) (s : σ) (bs : Bytes) (a : α) (s' : σ) : Prop :=
  ∀ rest, d.run o s (bs ++ rest) = ⟨.ok a, s', rest⟩

namespace Reads

variable {o : ByteOrder} {s s' s'' : σ} {bs cs : Bytes} {a : α} {b : β}

theorem pure (a : α) (o : ByteOrder) (s : σ) : (pure a : Decoder σ α).Reads o s [] a s :=
  fun _ => rfl

theorem bind {d : Decoder σ α} {f : α → Decoder σ β} (hd : d.Reads o s bs a s')
    (hf : (f a).Reads o s' cs b s'') : (d >>= f).Reads o s (bs ++ cs) b s'' := by
  intro rest
  rw [List.append_assoc, run_bind_of_ok (hd (cs ++ rest))]
  exact hf rest

/-- A decoder that reads the last octets, in front of one that only computes. -/
theorem bind_pure {d : Decoder σ α} {f : α → Decoder σ β} (hd : d.Reads o s bs a s')
    (hf : (f a).Reads o s' [] b s'') : (d >>= f).Reads o s bs b s'' := by
  simpa only [List.append_nil] using hd.bind hf

theorem map {d : Decoder σ α} (f : α → β) (hd : d.Reads o s bs a s') :
    (f <$> d).Reads o s bs (f a) s' :=
  bind_pure hd (Reads.pure (f a) o s')

theorem times_zero (d : Decoder σ α) (o : ByteOrder) (s : σ) : (times 0 d).Reads o s [] [] s :=
  fun _ => rfl

theorem times_succ {n : Nat} {d : Decoder σ α} {as : List α} (hd : d.Reads o s bs a s')
    (hn : (times n d).Reads o s' cs as s'') :
    (times (n + 1) d).Reads o s (bs ++ cs) (a :: as) s'' := by
  rw [Decoder.times_succ]
  exact hd.bind (hn.bind_pure (Reads.pure (a :: as) o s''))

/-- A list whose items are all read back without a change of state. -/
theorem times_of_forall {d : Decoder σ α} (encode : α → Bytes) (as : List α)
    (h : ∀ a ∈ as, d.Reads o s (encode a) a s) :
    (times as.length d).Reads o s (as.flatMap encode) as s := by
  induction as with
  | nil => exact times_zero d o s
  | cons a as ih =>
    rw [List.flatMap_cons]
    exact times_succ (h a (by simp)) (ih fun a' ha' => h a' (by simp [ha']))

end Reads

/-! ## Primitive formats -/

namespace Reads

variable (o : ByteOrder) (s : σ)

theorem octet (b : UInt8) : Decoder.octet.Reads o s [b] b s := fun _ => rfl

theorem octet_bind {b : UInt8} {f : UInt8 → Decoder σ α} {cs : Bytes} {a : α} {s' : σ}
    (hf : (f b).Reads o s cs a s') : (Decoder.octet >>= f).Reads o s (b :: cs) a s' :=
  (octet o s b).bind hf

theorem bool (b : Bool) : Decoder.bool.Reads o s (Wire.bool b) b s := by
  cases b with
  | false => exact fun _ => rfl
  | true => exact fun _ => rfl

theorem take (bs : Bytes) : (take bs.length).Reads o s bs bs s := by
  intro rest
  have hlen : hasAtLeast bs.length (bs ++ rest) = true := by simp [hasAtLeast_iff]
  show (if hasAtLeast bs.length (bs ++ rest) then _ else _) = _
  rw [if_pos hlen, List.take_left, List.drop_left]

theorem number (width n : Nat) (h : n < Nat.pow 256 width) :
    (number width).Reads o s (o.encode width n) n s := by
  have htake := take o s (o.encode width n)
  rw [ByteOrder.length_encode] at htake
  have hvalue : o.decode (o.encode width n) = n := by
    rw [ByteOrder.decode_encode, Nat.mod_eq_of_lt h]
  intro rest
  show (Decoder.take width >>= fun bs => Decoder.order >>= fun o => Pure.pure (o.decode bs)).run
    o s (o.encode width n ++ rest) = _
  rw [run_bind_of_ok (htake rest), run_bind_of_ok (run_order o s rest), hvalue, run_pure]

theorem word16 (n : UInt16) : Decoder.word16.Reads o s (Wire.word16 o n) n s := by
  have h := (number o s 2 n.toNat n.toNat_lt).map UInt16.ofNat
  rwa [UInt16.ofNat_toNat] at h

theorem word32 (n : UInt32) : Decoder.word32.Reads o s (Wire.word32 o n) n s := by
  have h := (number o s 4 n.toNat n.toNat_lt).map UInt32.ofNat
  rwa [UInt32.ofNat_toNat] at h

theorem word64 (n : UInt64) : Decoder.word64.Reads o s (Wire.word64 o n) n s := by
  have h := (number o s 8 n.toNat n.toNat_lt).map UInt64.ofNat
  rwa [UInt64.ofNat_toNat] at h

end Reads

end Decoder

/-! ## Sizes and strings -/

namespace Wire

theorem toInt_ofNat {n : Nat} (h : n ≤ maxSize) : (Int32.ofNat n).toInt = n := by
  unfold maxSize at h
  exact Int32.toInt_ofNat_of_lt (by omega)

theorem ofNat_ne_neg_one {n : Nat} (h : n ≤ maxSize) : Int32.ofNat n ≠ -1 := by
  intro heq
  have hint := congrArg Int32.toInt heq
  rw [toInt_ofNat h, show (-1 : Int32).toInt = -1 from rfl] at hint
  omega

theorem ofNat_short_iff {n : Nat} (h : n ≤ maxSize) :
    (0 ≤ Int32.ofNat n ∧ Int32.ofNat n < 254) ↔ n < 254 := by
  rw [Int32.le_iff_toInt_le, Int32.lt_iff_toInt_lt, toInt_ofNat h,
    show (0 : Int32).toInt = 0 from rfl, show (254 : Int32).toInt = 254 from rfl]
  omega

/-- A length below 254 is its own octet. -/
theorem length_of_lt (o : ByteOrder) {n : Nat} (h : n < 254) : length o n = [UInt8.ofNat n] := by
  have hmax : n ≤ maxSize := by
    unfold maxSize
    omega
  unfold length size
  rw [Nat.min_eq_left hmax, if_neg (ofNat_ne_neg_one hmax), if_pos ((ofNat_short_iff hmax).2 h),
    Int32.toInt8_ofNat', Int8.toUInt8_ofNat']

/-- Any other length is the long form. -/
theorem length_of_ge (o : ByteOrder) {n : Nat} (h : 254 ≤ n) (hmax : n ≤ maxSize) :
    length o n = longSize :: word32 o (UInt32.ofNat n) := by
  have hlong : ¬ n < 254 := by omega
  unfold length size
  rw [Nat.min_eq_left hmax, if_neg (ofNat_ne_neg_one hmax),
    if_neg (mt (ofNat_short_iff hmax).1 hlong), Int32.toUInt32_ofNat']

theorem length_length_le (o : ByteOrder) (n : Nat) : (length o n).length ≤ 5 := by
  unfold length size
  by_cases hnull : Int32.ofNat (min n maxSize) = -1
  · simp [hnull]
  · rw [if_neg hnull]
    by_cases hshort : 0 ≤ Int32.ofNat (min n maxSize) ∧ Int32.ofNat (min n maxSize) < 254
    · simp [hshort]
    · simp [if_neg hshort, word32]

theorem length_string_le (o : ByteOrder) (text : String) :
    (string o text).length ≤ 5 + text.utf8ByteSize := by
  have hsize := length_length_le o text.utf8ByteSize
  have hutf8 : (utf8 text).length = text.utf8ByteSize := rfl
  unfold string
  rw [List.length_append, hutf8]
  omega

theorem one_le_length_length (o : ByteOrder) (n : Nat) : 1 ≤ (length o n).length := by
  unfold length size
  split
  · exact Nat.le_refl 1
  split
  · exact Nat.le_refl 1
  · exact Nat.le_add_left 1 _

theorem utf8ByteSize_lt_length_string (o : ByteOrder) (text : String) :
    text.utf8ByteSize < (string o text).length := by
  have hsize := one_le_length_length o text.utf8ByteSize
  have hutf8 : (utf8 text).length = text.utf8ByteSize := rfl
  rw [string, List.length_append, hutf8]
  omega

theorem text?_utf8 (text : String) : Decoder.text? (utf8 text) = some text := by
  have hvalid : (⟨(utf8 text).toArray⟩ : ByteArray).IsValidUTF8 := text.isValidUTF8
  unfold Decoder.text? String.fromUTF8?
  rw [dif_pos hvalid]
  rfl

end Wire

namespace Decoder.Reads

variable {σ : Type} (o : ByteOrder) (s : σ)

theorem size {n : Nat} (h : n ≤ Wire.maxSize) :
    Decoder.size.Reads o s (Wire.length o n) (some n) s := by
  by_cases hshort : n < 254
  · rw [Wire.length_of_lt o hshort]
    have hnat : (UInt8.ofNat n).toNat = n := by
      rw [UInt8.toNat_ofNat']
      omega
    have hnull : UInt8.ofNat n ≠ Wire.nullSize := by
      intro heq
      rw [heq, show Wire.nullSize.toNat = 255 from rfl] at hnat
      omega
    have hlong : UInt8.ofNat n ≠ Wire.longSize := by
      intro heq
      rw [heq, show Wire.longSize.toNat = 254 from rfl] at hnat
      omega
    refine (octet o s (UInt8.ofNat n)).bind_pure ?_
    rw [if_neg hnull, if_neg hlong, hnat]
    exact Reads.pure (some n) o s
  · rw [Wire.length_of_ge o (by omega) h]
    refine octet_bind o s ?_
    rw [if_neg (by decide), if_pos rfl]
    refine (word32 o s (UInt32.ofNat n)).bind_pure ?_
    rw [UInt32.toInt32_ofNat', Wire.toInt_ofNat h, if_neg (by omega), Int.toNat_natCast]
    exact Reads.pure (some n) o s

theorem length {n : Nat} (h : n ≤ Wire.maxSize) :
    Decoder.length.Reads o s (Wire.length o n) n s :=
  (size o s h).bind_pure (Reads.pure n o s)

theorem string {text : String} (h : text.utf8ByteSize ≤ Wire.maxSize) :
    Decoder.string.Reads o s (Wire.string o text) text s := by
  have hlen : (Wire.utf8 text).length = text.utf8ByteSize := rfl
  refine (size o s h).bind ?_
  have htake := take o s (Wire.utf8 text)
  rw [hlen] at htake
  refine htake.bind_pure ?_
  rw [Wire.text?_utf8]
  exact Reads.pure text o s

end Decoder.Reads

end PvNet
