namespace QbCodec.Text

def utf8 (s : String) : List UInt8 := s.toByteArray.data.toList

def ofUtf8? (bs : List UInt8) : Option String := String.fromUTF8? ⟨bs.toArray⟩

theorem ofUtf8?_utf8 (s : String) : ofUtf8? (utf8 s) = some s := by
  have h : (⟨s.toByteArray.data.toList.toArray⟩ : ByteArray) = s.toByteArray := by simp
  simp only [ofUtf8?, utf8, h, String.fromUTF8?, s.isValidUTF8, dif_pos]
  rfl

def charUnits (c : Char) : List UInt16 :=
  let n := c.toNat
  if n < 0x10000 then [n.toUInt16]
  else [(0xD800 + (n - 0x10000) / 0x400).toUInt16, (0xDC00 + (n - 0x10000) % 0x400).toUInt16]

def utf16le (cs : List Char) : List UInt8 :=
  (cs.flatMap charUnits).flatMap fun (u : UInt16) => [u.toUInt8, (u >>> 8).toUInt8]

end QbCodec.Text
