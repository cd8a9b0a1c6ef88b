import Famicom.Text.Base64

/-!
# Base64 reads what it writes

* `Base64.decode?_encode` — bytes of any number are read back from their text.
-/

namespace Famicom.Base64

/-! ## Symbols -/

theorem value?_symbol {n : Nat} (h : n < 64) : value? (symbol n) = some n := by
  have hall : ∀ n : Fin 64, value? (symbol n) = some n.val := by decide
  exact hall ⟨n, h⟩

/-- Padding is no symbol. -/
theorem symbol_ne_padding {n : Nat} (h : n < 64) : symbol n ≠ '=' := by
  have hall : ∀ n : Fin 64, symbol n ≠ '=' := by decide
  exact hall ⟨n, h⟩

/-! ## Groups -/

/-- The characters that bytes are written as. -/
def symbols : List UInt8 → List Char
  | a :: b :: c :: rest =>
    let n := (a.toNat * 256 + b.toNat) * 256 + c.toNat
    symbol (n / 262144) :: symbol (n / 4096 % 64) :: symbol (n / 64 % 64) :: symbol (n % 64) ::
      symbols rest
  | [a, b] =>
    let n := (a.toNat * 256 + b.toNat) * 4
    [symbol (n / 4096), symbol (n / 64 % 64), symbol (n % 64), '=']
  | [a] =>
    let n := a.toNat * 16
    [symbol (n / 64), symbol (n % 64), '=', '=']
  | [] => []

theorem toList_encodeOnto (out : String) (bytes : List UInt8) :
    (encodeOnto out bytes).toList = out.toList ++ symbols bytes := by
  induction bytes using symbols.induct generalizing out with
  | case1 a b c rest ih => simp [encodeOnto, symbols, ih]
  | case2 a b => simp [encodeOnto, symbols]
  | case3 a => simp [encodeOnto, symbols]
  | case4 => simp [encodeOnto, symbols]

variable (read : Array UInt8) {n : Nat}

/-- The symbols of a number of 24 bits stand for its three bytes. -/
theorem decodeOnto_three (rest : List Char) (h : n < 0x1000000) :
    decodeOnto read
        (symbol (n / 262144) :: symbol (n / 4096 % 64) :: symbol (n / 64 % 64) ::
          symbol (n % 64) :: rest) =
      decodeOnto (((read.push (UInt8.ofNat (n / 65536))).push (UInt8.ofNat (n / 256))).push
        (UInt8.ofNat n)) rest := by
  have hjoin : ((n / 262144 * 64 + n / 4096 % 64) * 64 + n / 64 % 64) * 64 + n % 64 = n := by
    omega
  have hlast : n % 64 < 64 := by omega
  rw [decodeOnto]
  · simp only [value?_symbol (show n / 262144 < 64 by omega),
      value?_symbol (show n / 4096 % 64 < 64 by omega),
      value?_symbol (show n / 64 % 64 < 64 by omega), value?_symbol hlast, hjoin]
  · exact fun _ hpad _ => symbol_ne_padding hlast hpad
  · exact fun hpad _ => symbol_ne_padding hlast hpad

/-- The symbols of a number of 18 bits, the last two of them zero, stand for two bytes. -/
theorem decodeOnto_two (h : n < 0x40000) (hleft : n % 4 = 0) :
    decodeOnto read [symbol (n / 4096), symbol (n / 64 % 64), symbol (n % 64), '='] =
      some ((read.push (UInt8.ofNat (n / 1024))).push (UInt8.ofNat (n / 4))) := by
  have hjoin : (n / 4096 * 64 + n / 64 % 64) * 64 + n % 64 = n := by omega
  have hlast : n % 64 < 64 := by omega
  rw [decodeOnto]
  · simp only [value?_symbol (show n / 4096 < 64 by omega),
      value?_symbol (show n / 64 % 64 < 64 by omega), value?_symbol hlast, Option.bind_eq_bind,
      Option.bind_some, hjoin, hleft, if_true]
  · exact fun hpad => symbol_ne_padding hlast hpad

/-- The symbols of a number of 12 bits, the last four of them zero, stand for one byte. -/
theorem decodeOnto_one (h : n < 0x1000) (hleft : n % 16 = 0) :
    decodeOnto read [symbol (n / 64), symbol (n % 64), '=', '='] =
      some (read.push (UInt8.ofNat (n / 16))) := by
  have hjoin : n / 64 * 64 + n % 64 = n := by omega
  rw [decodeOnto]
  simp only [value?_symbol (show n / 64 < 64 by omega), value?_symbol (show n % 64 < 64 by omega),
    Option.bind_eq_bind, Option.bind_some, hjoin, hleft, if_true]

/-! ## Bytes -/

theorem ofNat_eq_byte {b : UInt8} (h : n % 256 = b.toNat) : UInt8.ofNat n = b := by
  apply UInt8.toNat_inj.mp
  rw [UInt8.toNat_ofNat']
  exact h

theorem decodeOnto_symbols (bytes : List UInt8) :
    decodeOnto read (symbols bytes) = some (read ++ bytes.toArray) := by
  induction bytes using symbols.induct generalizing read with
  | case1 a b c rest ih =>
    have ha := a.toNat_lt
    have hb := b.toNat_lt
    have hc := c.toNat_lt
    rw [symbols, decodeOnto_three read _ (by omega), ih, ofNat_eq_byte (b := a) (by omega),
      ofNat_eq_byte (b := b) (by omega), ofNat_eq_byte (b := c) (by omega)]
    simp
  | case2 a b =>
    have ha := a.toNat_lt
    have hb := b.toNat_lt
    rw [symbols, decodeOnto_two read (by omega) (by omega), ofNat_eq_byte (b := a) (by omega),
      ofNat_eq_byte (b := b) (by omega)]
    simp [← Array.toList_inj]
  | case3 a =>
    have ha := a.toNat_lt
    rw [symbols, decodeOnto_one read (by omega) (by omega), ofNat_eq_byte (b := a) (by omega)]
    simp
  | case4 => simp [symbols, decodeOnto]

/-- Bytes of any number are read back from their text. -/
theorem decode?_encode (bytes : List UInt8) : decode? (encode bytes) = some bytes.toArray := by
  rw [decode?, encode, toList_encodeOnto]
  simpa using decodeOnto_symbols #[] bytes

end Famicom.Base64
