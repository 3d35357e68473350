import Energiminer.Misc.LittleEndian

/-!
# Byte codecs

Readers of byte streams and what it means that a reader and a writer belong together. A stream is
any type with a `read` that delivers the next bytes or fails; it is lawful if the bytes it delivers
are the next ones of a list of bytes left. `Codes` says of a reader and a writer that reading undoes
writing and that whatever is read is what the writer would have written; the rules below build it up
along the statements of a reader.
-/

namespace Energiminer.Misc.Codec

/-- A source of bytes. -/
class ByteStream (σ : Type) (ε : outParam Type) where
  /-- The next `n` bytes, and the stream after them. -/
  read : Nat → StateT σ (Except ε) (List Byte)

/-- A source that delivers its bytes in order, and fails if there are not enough of them. -/
class LawfulByteStream (σ : Type) (ε : outParam Type) extends ByteStream σ ε where
  /-- The stream is in order, and these bytes are left in it. -/
  Left : σ → List Byte → Prop
  read_ok : ∀ {s : σ} {bytes tail : List Byte}, Left s (bytes ++ tail) →
    ∃ t, read bytes.length s = .ok (bytes, t) ∧ Left t tail
  read_error : ∀ {s : σ} {bytes : List Byte} {n : Nat}, Left s bytes → bytes.length < n →
    ∃ e, read n s = .error e

export LawfulByteStream (Left)

/-- A reader of values from a stream. -/
abbrev Reader (σ ε α : Type) := StateT σ (Except ε) α

variable {σ ε α β γ : Type}

/-- Read a word of `n` bytes, least significant first. -/
def readWord [ByteStream σ ε] (n : Nat) : Reader σ ε (BitVec (8 * n)) := do
  let bytes ← ByteStream.read n
  pure (leWord (8 * n) fun i => bytes.getD i 0)

/-- Read `n` values one after the other. -/
def readMany (r : Reader σ ε α) : Nat → Reader σ ε (List α)
  | 0 => pure []
  | n + 1 => do
    let x ← r
    let xs ← readMany r n
    pure (x :: xs)

/-- Read `n` values in pieces of at most `chunk`. -/
def readChunks (piece : Nat → Reader σ ε (List α)) (chunk : Nat) : Nat → Nat → Reader σ ε (List α)
  | 0, _ => pure []
  | fuel + 1, n =>
    if n = 0 then pure []
    else do
      let xs ← piece (min chunk n)
      let ys ← readChunks piece chunk fuel (n - min chunk n)
      pure (xs ++ ys)

theorem bind_eq_ok {r : Reader σ ε α} {f : α → Reader σ ε β} {s t : σ} {y : β} :
    (r >>= f) s = .ok (y, t) ↔ ∃ x u, r s = .ok (x, u) ∧ f x u = .ok (y, t) := by
  change Except.bind (r s) (fun p => f p.1 p.2) = .ok (y, t) ↔ _
  cases h : r s with
  | error e => simp [Except.bind]
  | ok p =>
    obtain ⟨x, u⟩ := p
    simp [Except.bind]

theorem pure_eq_ok {x y : α} {s t : σ} :
    (pure x : Reader σ ε α) s = .ok (y, t) ↔ x = y ∧ s = t := by
  change Except.ok (x, s) = Except.ok (y, t) ↔ _
  simp

/-- Whatever the reader does to a stream with the property, the property stays. -/
def Preserves (P : σ → Prop) (r : Reader σ ε α) : Prop := ∀ s x t, P s → r s = .ok (x, t) → P t

namespace Preserves
variable {P : σ → Prop}

theorem pure (x : α) : Preserves P (pure x : Reader σ ε α) := by
  intro s y t hs h
  obtain ⟨-, rfl⟩ := pure_eq_ok.mp h
  exact hs

theorem throw (e : ε) : Preserves P (throw e : Reader σ ε α) := by
  intro s x t _ h
  cases h

theorem bind {r : Reader σ ε α} {f : α → Reader σ ε β} (hr : Preserves P r)
    (hf : ∀ x, Preserves P (f x)) : Preserves P (r >>= f) := by
  intro s y t hs h
  obtain ⟨x, u, hx, hy⟩ := bind_eq_ok.mp h
  exact hf x u y t (hr s x u hs hx) hy

theorem ite {c : Prop} [Decidable c] {r r' : Reader σ ε α} (hr : Preserves P r)
    (hr' : Preserves P r') : Preserves P (if c then r else r') := by
  split
  · exact hr
  · exact hr'

theorem readMany {r : Reader σ ε α} (hr : Preserves P r) (n : Nat) :
    Preserves P (readMany r n) := by
  induction n with
  | zero => exact pure []
  | succ n ih => exact hr.bind fun x => ih.bind fun xs => pure (x :: xs)

theorem readChunks {piece : Nat → Reader σ ε (List α)} (hpiece : ∀ n, Preserves P (piece n))
    (chunk fuel n : Nat) : Preserves P (readChunks piece chunk fuel n) := by
  induction fuel generalizing n with
  | zero => exact pure []
  | succ fuel ih =>
    exact (pure []).ite ((hpiece _).bind fun xs => (ih _).bind fun ys => pure (xs ++ ys))

theorem readWord [ByteStream σ ε] (hr : ∀ n, Preserves P (ByteStream.read (σ := σ) n)) (n : Nat) :
    Preserves P (readWord n : Reader σ ε _) := (hr n).bind fun _ => pure _

end Preserves

/-- The reader undoes the writer on the valid values, and accepts nothing else than what the writer
makes of a valid value. -/
structure Codes [LawfulByteStream σ ε] (r : Reader σ ε α) (write : α → List Byte)
    (valid : α → Prop) : Prop where
  decodes : ∀ {x : α} {s : σ} {tail : List Byte}, valid x → Left s (write x ++ tail) →
    ∃ t, r s = .ok (x, t) ∧ Left t tail
  canonical : ∀ {s t : σ} {x : α} {bytes : List Byte}, Left s bytes → r s = .ok (x, t) →
    valid x ∧ ∃ tail, bytes = write x ++ tail ∧ Left t tail

namespace Codes
variable [LawfulByteStream σ ε] {w W : α → List Byte} {v V : α → Prop}

theorem congr {r : Reader σ ε α} (h : Codes r w v) (hwrite : ∀ x, v x → W x = w x)
    (hvalid : ∀ x, V x ↔ v x) : Codes r W V := by
  refine ⟨fun {x s tail} hx hs => ?_, fun {s t x bytes} hs hr => ?_⟩
  · have hx := (hvalid x).mp hx
    rw [hwrite x hx] at hs
    exact h.decodes hx hs
  · obtain ⟨hx, tail, hbytes, ht⟩ := h.canonical hs hr
    exact ⟨(hvalid x).mpr hx, tail, by rw [hbytes, hwrite x hx], ht⟩

theorem pure (x : α) : Codes (pure x : Reader σ ε α) (fun _ => []) (fun y => y = x) := by
  refine ⟨fun {y s tail} hy hs => ?_, fun {s t y bytes} hs h => ?_⟩
  · subst hy
    exact ⟨s, rfl, hs⟩
  · obtain ⟨rfl, rfl⟩ := pure_eq_ok.mp h
    exact ⟨rfl, bytes, rfl, hs⟩

/-- A first part `p g` of the value `g` is read, and what follows depends on it. -/
theorem bind {r : Reader σ ε α} {f : α → Reader σ ε γ} {W : γ → List Byte} {V : γ → Prop}
    (p : γ → α) (hr : Codes r w v) (hf : ∀ x, v x → Codes (f x) W fun g => p g = x ∧ V g) :
    Codes (r >>= f) (fun g => w (p g) ++ W g) fun g => v (p g) ∧ V g := by
  refine ⟨fun {g s tail} hg hs => ?_, fun {s t g bytes} hs h => ?_⟩
  · obtain ⟨hp, hg⟩ := hg
    rw [List.append_assoc] at hs
    obtain ⟨u, hu, hleft⟩ := hr.decodes hp hs
    obtain ⟨t, ht, htail⟩ := (hf (p g) hp).decodes ⟨rfl, hg⟩ hleft
    exact ⟨t, bind_eq_ok.mpr ⟨p g, u, hu, ht⟩, htail⟩
  · obtain ⟨x, u, hu, ht⟩ := bind_eq_ok.mp h
    obtain ⟨hx, mid, hbytes, hleft⟩ := hr.canonical hs hu
    obtain ⟨⟨rfl, hg⟩, tail, hmid, htail⟩ := (hf x hx).canonical hleft ht
    exact ⟨⟨hx, hg⟩, tail, by rw [hbytes, hmid, List.append_assoc], htail⟩

/-- The value is finished by a function that can be undone on it. -/
theorem map {r : Reader σ ε α} (f : α → γ) (p : γ → α) (hr : Codes r w v)
    (hpf : ∀ x, v x → p (f x) = x) :
    Codes (r >>= fun x => Pure.pure (f x)) (fun g => w (p g)) fun g => v (p g) ∧ f (p g) = g := by
  have hf : ∀ x, v x → Codes (Pure.pure (f x) : Reader σ ε γ) (fun _ => [])
      fun g => p g = x ∧ f (p g) = g := by
    intro x hx
    refine (Codes.pure (f x)).congr (fun _ _ => rfl) fun g => ?_
    constructor
    · rintro ⟨rfl, hg⟩
      exact hg.symm
    · rintro rfl
      exact ⟨hpf x hx, by rw [hpf x hx]⟩
  exact (hr.bind p hf).congr (fun g _ => (List.append_nil _).symm) fun g => Iff.rfl

/-- A part of a record is read. What is known of the record are the parts read before. -/
theorem next {r : Reader σ ε α} {f : α → Reader σ ε γ} {W : γ → List Byte} {K V : γ → Prop}
    (p : γ → α) (hr : Codes r w v)
    (hf : ∀ x, v x → Codes (f x) W fun g => (K g ∧ p g = x) ∧ V g) :
    Codes (r >>= f) (fun g => w (p g) ++ W g) fun g => K g ∧ v (p g) ∧ V g := by
  have hf' : ∀ x, v x → Codes (f x) W fun g => p g = x ∧ K g ∧ V g := fun x hx =>
    (hf x hx).congr (fun _ _ => rfl) fun g => by
      rw [← and_assoc, and_comm (a := p g = x)]
  refine (hr.bind p hf').congr (fun _ _ => rfl) fun g => ?_
  rw [and_left_comm]

/-- The last part of a record is read, and the record is made. -/
theorem last {r : Reader σ ε α} {K : γ → Prop} (p : γ → α) (hr : Codes r w v) (make : α → γ)
    (hmake : ∀ x g, make x = g ↔ K g ∧ p g = x) :
    Codes (r >>= fun x => Pure.pure (make x)) (fun g => w (p g)) fun g => K g ∧ v (p g) := by
  refine (hr.map make p fun x _ => ((hmake x _).mp rfl).2).congr (fun _ _ => rfl) fun g => ?_
  rw [hmake, and_comm]
  simp

/-- A value is refused after it was read. -/
theorem refuse {r : Reader σ ε α} (hr : Codes r w v) (c : α → Prop) [DecidablePred c] (e : ε) :
    Codes (r >>= fun x => if c x then throw e else Pure.pure x) w fun x => v x ∧ ¬ c x := by
  refine ⟨fun {x s tail} hx hs => ?_, fun {s t x bytes} hs h => ?_⟩
  · obtain ⟨t, ht, hleft⟩ := hr.decodes hx.1 hs
    refine ⟨t, bind_eq_ok.mpr ⟨x, t, ht, ?_⟩, hleft⟩
    rw [if_neg hx.2]
    rfl
  · obtain ⟨y, u, hu, h⟩ := bind_eq_ok.mp h
    split at h
    next => cases h
    next hc =>
      obtain ⟨rfl, rfl⟩ := pure_eq_ok.mp h
      obtain ⟨hy, tail, hbytes, hleft⟩ := hr.canonical hs hu
      exact ⟨⟨hy, hc⟩, tail, hbytes, hleft⟩

/-- A block of bytes of a given length stands for itself. -/
theorem read (n : Nat) : Codes (ByteStream.read n : Reader σ ε (List Byte)) id
    fun bytes => bytes.length = n := by
  refine ⟨fun {bytes s tail} hn hs => ?_, fun {s t x bytes} hs h => ?_⟩
  · subst hn
    exact LawfulByteStream.read_ok hs
  · rcases Nat.lt_or_ge bytes.length n with hlt | hle
    · obtain ⟨e, he⟩ := LawfulByteStream.read_error hs hlt
      rw [he] at h
      cases h
    · have hlen : (bytes.take n).length = n := by simp [hle]
      rw [← List.take_append_drop n bytes] at hs
      obtain ⟨u, hu, hleft⟩ := LawfulByteStream.read_ok hs
      rw [hlen] at hu
      cases hu.symm.trans h
      exact ⟨hlen, bytes.drop n, (List.take_append_drop _ _).symm, hleft⟩

theorem leWord_getD_leBytes {n : Nat} (x : BitVec (8 * n)) :
    leWord (8 * n) (fun i => (leBytes n x).getD i 0) = x := by
  conv_rhs => rw [← leWord_byteOf x]
  exact leWord_congr _ fun i hi => getD_leBytes n x i (by omega)

theorem leBytes_leWord_getD {bytes : List Byte} {n : Nat} (h : bytes.length = n) :
    leBytes n (leWord (8 * n) fun i => bytes.getD i 0) = bytes := by
  refine List.ext_getElem (by simp [h]) fun i hi hi' => ?_
  have hin : i < n := by simpa using hi
  simp only [leBytes, List.getElem_map, List.getElem_range]
  rw [byteOf_leWord _ _ _ (by omega)]
  simp [List.getD, hi']

theorem readWord (n : Nat) : Codes (readWord n : Reader σ ε (BitVec (8 * n))) (leBytes n)
    fun _ => True := by
  refine ((read n).map _ (leBytes n) fun bytes hbytes => leBytes_leWord_getD hbytes).congr
    (fun x _ => rfl) fun x => ?_
  simp only [leWord_getD_leBytes, length_leBytes, and_self]

/-- `n` values, each as its own codec has it. -/
theorem readMany {r : Reader σ ε α} (hr : Codes r w v) (n : Nat) :
    Codes (readMany r n) (fun xs => xs.flatMap w) fun xs => xs.length = n ∧ ∀ x ∈ xs, v x := by
  refine ⟨fun {xs s tail} hxs hs => ?_, fun {s t xs bytes} hs h => ?_⟩
  · induction xs generalizing n s with
    | nil =>
      obtain ⟨rfl, -⟩ := hxs
      exact ⟨s, rfl, hs⟩
    | cons x xs ih =>
      obtain ⟨rfl, hvalid⟩ := hxs
      simp only [List.flatMap_cons, List.append_assoc] at hs
      obtain ⟨u, hu, hleft⟩ := hr.decodes (hvalid x List.mem_cons_self) hs
      obtain ⟨t, ht, htail⟩ := ih xs.length
        ⟨rfl, fun y hy => hvalid y (List.mem_cons_of_mem _ hy)⟩ hleft
      exact ⟨t, bind_eq_ok.mpr ⟨x, u, hu, bind_eq_ok.mpr ⟨xs, t, ht, rfl⟩⟩, htail⟩
  · induction n generalizing s xs bytes with
    | zero =>
      obtain ⟨rfl, rfl⟩ := pure_eq_ok.mp h
      exact ⟨⟨rfl, fun x hx => (nomatch hx)⟩, bytes, rfl, hs⟩
    | succ n ih =>
      obtain ⟨x, u, hu, h⟩ := bind_eq_ok.mp h
      obtain ⟨ys, u', hu', h⟩ := bind_eq_ok.mp h
      obtain ⟨rfl, rfl⟩ := pure_eq_ok.mp h
      obtain ⟨hx, mid, hbytes, hleft⟩ := hr.canonical hs hu
      obtain ⟨⟨hlen, hys⟩, tail, hmid, htail⟩ := ih hleft hu'
      refine ⟨⟨by simp [hlen], fun y hy => ?_⟩, tail, ?_, htail⟩
      · rcases List.mem_cons.mp hy with rfl | hy
        · exact hx
        · exact hys y hy
      · rw [hbytes, hmid, List.flatMap_cons, List.append_assoc]

/-- How the values are divided into pieces does not matter. -/
theorem readChunks {piece : Nat → Reader σ ε (List α)} {W : List α → List Byte}
    (hpiece : ∀ n, Codes (piece n) W fun xs => xs.length = n ∧ ∀ x ∈ xs, v x)
    (happend : ∀ xs ys, W (xs ++ ys) = W xs ++ W ys) {chunk : Nat} (hchunk : 0 < chunk)
    {fuel n : Nat} (hfuel : n ≤ fuel) :
    Codes (readChunks piece chunk fuel n) W fun xs => xs.length = n ∧ ∀ x ∈ xs, v x := by
  have hnil : W [] = [] := List.self_eq_append_right.mp (happend [] [])
  have hnone : Codes (Pure.pure [] : Reader σ ε (List α)) W
      fun xs => xs.length = 0 ∧ ∀ x ∈ xs, v x := by
    refine (Codes.pure []).congr (fun xs h => h ▸ hnil) fun xs => ?_
    rw [List.length_eq_zero_iff]
    exact ⟨fun h => h.1, fun h => ⟨h, h ▸ fun x hx => (nomatch hx)⟩⟩
  induction fuel generalizing n with
  | zero =>
    obtain rfl : n = 0 := by omega
    exact hnone
  | succ fuel ih =>
    rw [Codec.readChunks]
    split
    next h => exact h ▸ hnone
    next h =>
      have hrest : ∀ xs : List α, (xs.length = min chunk n ∧ ∀ x ∈ xs, v x) →
          Codes (Codec.readChunks piece chunk fuel (n - min chunk n) >>=
            fun ys => Pure.pure (xs ++ ys)) (fun zs => W (zs.drop (min chunk n)))
            fun zs => zs.take (min chunk n) = xs ∧
              (zs.length = n ∧ ∀ x ∈ zs.drop (min chunk n), v x) := by
        intro xs hxs
        refine ((ih (n := n - min chunk n) (by omega)).map (xs ++ ·) (List.drop (min chunk n))
          fun ys _ => ?_).congr (fun zs _ => rfl) fun zs => ?_
        · rw [← hxs.1]
          exact List.drop_left
        · constructor
          · rintro ⟨htake, hlen, hall⟩
            exact ⟨⟨by simp [hlen], hall⟩, by rw [← htake]; exact List.take_append_drop _ _⟩
          · rintro ⟨⟨hlen, hall⟩, happ⟩
            refine ⟨?_, ?_, hall⟩
            · rw [← happ, ← hxs.1]
              exact List.take_left
            · rw [← happ, List.length_append, hxs.1, hlen]
              omega
      refine ((hpiece (min chunk n)).bind (List.take (min chunk n)) hrest).congr
        (fun zs _ => ?_) fun zs => ?_
      · rw [← happend, List.take_append_drop]
      · constructor
        · rintro ⟨hlen, hall⟩
          exact ⟨⟨by simp [hlen], fun x hx => hall x (List.mem_of_mem_take hx)⟩, hlen,
            fun x hx => hall x (List.mem_of_mem_drop hx)⟩
        · rintro ⟨⟨-, htake⟩, hlen, hdrop⟩
          refine ⟨hlen, fun x hx => ?_⟩
          rw [← List.take_append_drop (min chunk n) zs] at hx
          rcases List.mem_append.mp hx with hx | hx
          · exact htake x hx
          · exact hdrop x hx

end Codes

/-- A read into an object: the object afterwards, and the stream or the failure. A failure leaves
in the object what was read before it. -/
abbrev Into (σ ε α : Type) := α → σ → α × Except ε σ

namespace Into

/-- Assign a value once it is read. -/
def assign (r : Reader σ ε α) : Into σ ε α := fun old s =>
  match r s with
  | .ok (x, t) => (x, .ok t)
  | .error e => (old, .error e)

/-- Change the object without reading. -/
def update (f : α → α) : Into σ ε α := fun old s => (f old, .ok s)

/-- Read a value that says what to do with the object. -/
def after (r : Reader σ ε α) (f : α → Into σ ε β) : Into σ ε β := fun old s =>
  match r s with
  | .ok (x, t) => f x old t
  | .error e => (old, .error e)

/-- One read into an object after another. -/
def andThen (r q : Into σ ε α) : Into σ ε α := fun old s =>
  match r old s with
  | (x, .ok t) => q x t
  | (x, .error e) => (x, .error e)

/-- Read into a field. -/
def field (get : β → α) (set : β → α → β) (r : Into σ ε α) : Into σ ε β := fun old s =>
  let (x, t) := r (get old) s
  (set old x, t)

/-- Read into `n` new objects of a list. -/
def many (r : Into σ ε α) (new : α) : Nat → Into σ ε (List α)
  | 0, _, s => ([], .ok s)
  | n + 1, _, s =>
    match r new s with
    | (x, .ok t) =>
      let (xs, u) := many r new n [] t
      (x :: xs, u)
    | (x, .error e) => (x :: List.replicate n new, .error e)

/-- Read into the `n` objects of a list, which grows by at most `chunk` at a time. -/
def chunks (piece : Nat → Into σ ε (List α)) (chunk : Nat) : Nat → Nat → Into σ ε (List α)
  | 0, _, _, s => ([], .ok s)
  | fuel + 1, n, _, s =>
    if n = 0 then ([], .ok s)
    else
      match piece (min chunk n) [] s with
      | (xs, .ok t) =>
        let (ys, u) := chunks piece chunk fuel (n - min chunk n) [] t
        (xs ++ ys, u)
      | (xs, .error e) => (xs, .error e)

/-- The read of the object as a value, which a failure loses. -/
def reader (r : Into σ ε α) (old : α) : Reader σ ε α := fun s => do
  let t ← (r old s).2
  pure ((r old s).1, t)

theorem reader_eq_ok {r : Into σ ε α} {old x : α} {s t : σ} :
    r.reader old s = .ok (x, t) ↔ r old s = (x, .ok t) := by
  rw [reader]
  rcases r old s with ⟨y, e | u⟩
  · exact ⟨fun h => (nomatch h), fun h => (nomatch h)⟩
  · exact ⟨fun h => by cases h; rfl, fun h => by cases h; rfl⟩

theorem reader_assign (r : Reader σ ε α) (old : α) : (assign r).reader old = r := by
  funext s
  rw [reader, assign]
  rcases r s with e | ⟨x, t⟩ <;> rfl

theorem reader_update (f : α → α) (old : α) :
    (update f : Into σ ε α).reader old = pure (f old) := rfl

theorem reader_after (r : Reader σ ε α) (f : α → Into σ ε β) (old : β) :
    (after r f).reader old = r >>= fun x => (f x).reader old := by
  funext s
  change _ = Except.bind (r s) _
  rw [reader, after]
  rcases r s with e | ⟨x, t⟩ <;> rfl

theorem reader_andThen (r q : Into σ ε α) (old : α) :
    (r.andThen q).reader old = r.reader old >>= fun x => q.reader x := by
  funext s
  change _ = Except.bind (r.reader old s) _
  rw [reader, reader, andThen]
  rcases r old s with ⟨x, e | t⟩ <;> rfl

theorem reader_field (get : β → α) (set : β → α → β) (r : Into σ ε α) (old : β) :
    (field get set r).reader old = r.reader (get old) >>= fun x => pure (set old x) := by
  funext s
  change _ = Except.bind (r.reader (get old) s) _
  rw [reader, reader, field]
  rcases r (get old) s with ⟨x, e | t⟩ <;> rfl

theorem reader_many (r : Into σ ε α) (new : α) (n : Nat) (old : List α) :
    (many r new n).reader old = readMany (r.reader new) n := by
  induction n generalizing old with
  | zero => rfl
  | succ n ih =>
    funext s
    rw [readMany, ← ih []]
    change _ = Except.bind (r.reader new s) _
    rw [reader, reader, many]
    rcases r new s with ⟨x, e | t⟩
    · rfl
    · change _ = Except.bind ((many r new n).reader [] t) _
      rw [reader]
      dsimp only
      rcases many r new n [] t with ⟨xs, e | u⟩ <;> rfl

theorem reader_chunks (piece : Nat → Into σ ε (List α)) (chunk fuel n : Nat) (old : List α) :
    (chunks piece chunk fuel n).reader old =
      readChunks (fun n => (piece n).reader []) chunk fuel n := by
  induction fuel generalizing n old with
  | zero => rfl
  | succ fuel ih =>
    funext s
    rw [readChunks, ← ih _ []]
    by_cases h : n = 0
    · subst h
      rfl
    · rw [if_neg h]
      change _ = Except.bind ((piece (min chunk n)).reader [] s) _
      rw [reader, reader, chunks, if_neg h]
      rcases piece (min chunk n) [] s with ⟨xs, e | t⟩
      · rfl
      · change _ = Except.bind ((chunks piece chunk fuel (n - min chunk n)).reader [] t) _
        rw [reader]
        dsimp only
        rcases chunks piece chunk fuel (n - min chunk n) [] t with ⟨ys, e | u⟩ <;> rfl

end Into

/-- The bytes of a list, read off its front; `e` is the failure at its end. -/
@[reducible] def listStream (e : ε) : LawfulByteStream (List Byte) ε where
  read n bytes := if n ≤ bytes.length then .ok (bytes.take n, bytes.drop n) else .error e
  Left s bytes := s = bytes
  read_ok {s bytes tail} h := by
    subst h
    exact ⟨tail, by simp, rfl⟩
  read_error {s bytes n} h hn := by
    subst h
    exact ⟨e, if_neg (Nat.not_le.mpr hn)⟩

end Energiminer.Misc.Codec
