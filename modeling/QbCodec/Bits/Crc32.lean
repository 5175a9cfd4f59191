namespace QbCodec.Bits.Crc32

def shift (r : UInt32) : UInt32 :=
  if r &&& 1 = 1 then (r >>> 1) ^^^ 0xEDB88320 else r >>> 1

def feed (r : UInt32) (b : UInt8) : UInt32 :=
  shift (shift (shift (shift (shift (shift (shift (shift (r ^^^ b.toUInt32))))))))

def register (bs : List UInt8) : UInt32 := bs.foldl feed 0xFFFFFFFF

def checksum (bs : List UInt8) : UInt32 := ~~~ register bs

end QbCodec.Bits.Crc32
