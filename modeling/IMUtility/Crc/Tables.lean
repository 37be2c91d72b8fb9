import IMUtility.Crc.Base

/-! # The static tables of the CRC variants

The `crc_table` of every variant, as its file writes it out. Files with the same polynomial carry
the same 256 entries, so a table stands here once and is named after its width and polynomial;
the docstring lists the functions that own a copy. -/

set_option maxRecDepth 4000

namespace IMUtility.Crc

/-! ## CRC-8

Seven polynomials for thirteen functions. -/

/-- The table of `Crc8`, `Crc8_itu`, `Crc8_rohc`. -/
def table8_07 : Table 8 := #v[
  0x00#8, 0x07#8, 0x0E#8, 0x09#8, 0x1C#8, 0x1B#8, 0x12#8, 0x15#8, 0x38#8, 0x3F#8, 0x36#8, 0x31#8,
  0x24#8, 0x23#8, 0x2A#8, 0x2D#8, 0x70#8, 0x77#8, 0x7E#8, 0x79#8, 0x6C#8, 0x6B#8, 0x62#8, 0x65#8,
  0x48#8, 0x4F#8, 0x46#8, 0x41#8, 0x54#8, 0x53#8, 0x5A#8, 0x5D#8, 0xE0#8, 0xE7#8, 0xEE#8, 0xE9#8,
  0xFC#8, 0xFB#8, 0xF2#8, 0xF5#8, 0xD8#8, 0xDF#8, 0xD6#8, 0xD1#8, 0xC4#8, 0xC3#8, 0xCA#8, 0xCD#8,
  0x90#8, 0x97#8, 0x9E#8, 0x99#8, 0x8C#8, 0x8B#8, 0x82#8, 0x85#8, 0xA8#8, 0xAF#8, 0xA6#8, 0xA1#8,
  0xB4#8, 0xB3#8, 0xBA#8, 0xBD#8, 0xC7#8, 0xC0#8, 0xC9#8, 0xCE#8, 0xDB#8, 0xDC#8, 0xD5#8, 0xD2#8,
  0xFF#8, 0xF8#8, 0xF1#8, 0xF6#8, 0xE3#8, 0xE4#8, 0xED#8, 0xEA#8, 0xB7#8, 0xB0#8, 0xB9#8, 0xBE#8,
  0xAB#8, 0xAC#8, 0xA5#8, 0xA2#8, 0x8F#8, 0x88#8, 0x81#8, 0x86#8, 0x93#8, 0x94#8, 0x9D#8, 0x9A#8,
  0x27#8, 0x20#8, 0x29#8, 0x2E#8, 0x3B#8, 0x3C#8, 0x35#8, 0x32#8, 0x1F#8, 0x18#8, 0x11#8, 0x16#8,
  0x03#8, 0x04#8, 0x0D#8, 0x0A#8, 0x57#8, 0x50#8, 0x59#8, 0x5E#8, 0x4B#8, 0x4C#8, 0x45#8, 0x42#8,
  0x6F#8, 0x68#8, 0x61#8, 0x66#8, 0x73#8, 0x74#8, 0x7D#8, 0x7A#8, 0x89#8, 0x8E#8, 0x87#8, 0x80#8,
  0x95#8, 0x92#8, 0x9B#8, 0x9C#8, 0xB1#8, 0xB6#8, 0xBF#8, 0xB8#8, 0xAD#8, 0xAA#8, 0xA3#8, 0xA4#8,
  0xF9#8, 0xFE#8, 0xF7#8, 0xF0#8, 0xE5#8, 0xE2#8, 0xEB#8, 0xEC#8, 0xC1#8, 0xC6#8, 0xCF#8, 0xC8#8,
  0xDD#8, 0xDA#8, 0xD3#8, 0xD4#8, 0x69#8, 0x6E#8, 0x67#8, 0x60#8, 0x75#8, 0x72#8, 0x7B#8, 0x7C#8,
  0x51#8, 0x56#8, 0x5F#8, 0x58#8, 0x4D#8, 0x4A#8, 0x43#8, 0x44#8, 0x19#8, 0x1E#8, 0x17#8, 0x10#8,
  0x05#8, 0x02#8, 0x0B#8, 0x0C#8, 0x21#8, 0x26#8, 0x2F#8, 0x28#8, 0x3D#8, 0x3A#8, 0x33#8, 0x34#8,
  0x4E#8, 0x49#8, 0x40#8, 0x47#8, 0x52#8, 0x55#8, 0x5C#8, 0x5B#8, 0x76#8, 0x71#8, 0x78#8, 0x7F#8,
  0x6A#8, 0x6D#8, 0x64#8, 0x63#8, 0x3E#8, 0x39#8, 0x30#8, 0x37#8, 0x22#8, 0x25#8, 0x2C#8, 0x2B#8,
  0x06#8, 0x01#8, 0x08#8, 0x0F#8, 0x1A#8, 0x1D#8, 0x14#8, 0x13#8, 0xAE#8, 0xA9#8, 0xA0#8, 0xA7#8,
  0xB2#8, 0xB5#8, 0xBC#8, 0xBB#8, 0x96#8, 0x91#8, 0x98#8, 0x9F#8, 0x8A#8, 0x8D#8, 0x84#8, 0x83#8,
  0xDE#8, 0xD9#8, 0xD0#8, 0xD7#8, 0xC2#8, 0xC5#8, 0xCC#8, 0xCB#8, 0xE6#8, 0xE1#8, 0xE8#8, 0xEF#8,
  0xFA#8, 0xFD#8, 0xF4#8, 0xF3#8]

/-- The table of `Crc8_ebu`, `Crc8_icode`, `Crc8_saeJ1850`, `Crc8_saeJ1850Zero`. -/
def table8_1D : Table 8 := #v[
  0x00#8, 0x1D#8, 0x3A#8, 0x27#8, 0x74#8, 0x69#8, 0x4E#8, 0x53#8, 0xE8#8, 0xF5#8, 0xD2#8, 0xCF#8,
  0x9C#8, 0x81#8, 0xA6#8, 0xBB#8, 0xCD#8, 0xD0#8, 0xF7#8, 0xEA#8, 0xB9#8, 0xA4#8, 0x83#8, 0x9E#8,
  0x25#8, 0x38#8, 0x1F#8, 0x02#8, 0x51#8, 0x4C#8, 0x6B#8, 0x76#8, 0x87#8, 0x9A#8, 0xBD#8, 0xA0#8,
  0xF3#8, 0xEE#8, 0xC9#8, 0xD4#8, 0x6F#8, 0x72#8, 0x55#8, 0x48#8, 0x1B#8, 0x06#8, 0x21#8, 0x3C#8,
  0x4A#8, 0x57#8, 0x70#8, 0x6D#8, 0x3E#8, 0x23#8, 0x04#8, 0x19#8, 0xA2#8, 0xBF#8, 0x98#8, 0x85#8,
  0xD6#8, 0xCB#8, 0xEC#8, 0xF1#8, 0x13#8, 0x0E#8, 0x29#8, 0x34#8, 0x67#8, 0x7A#8, 0x5D#8, 0x40#8,
  0xFB#8, 0xE6#8, 0xC1#8, 0xDC#8, 0x8F#8, 0x92#8, 0xB5#8, 0xA8#8, 0xDE#8, 0xC3#8, 0xE4#8, 0xF9#8,
  0xAA#8, 0xB7#8, 0x90#8, 0x8D#8, 0x36#8, 0x2B#8, 0x0C#8, 0x11#8, 0x42#8, 0x5F#8, 0x78#8, 0x65#8,
  0x94#8, 0x89#8, 0xAE#8, 0xB3#8, 0xE0#8, 0xFD#8, 0xDA#8, 0xC7#8, 0x7C#8, 0x61#8, 0x46#8, 0x5B#8,
  0x08#8, 0x15#8, 0x32#8, 0x2F#8, 0x59#8, 0x44#8, 0x63#8, 0x7E#8, 0x2D#8, 0x30#8, 0x17#8, 0x0A#8,
  0xB1#8, 0xAC#8, 0x8B#8, 0x96#8, 0xC5#8, 0xD8#8, 0xFF#8, 0xE2#8, 0x26#8, 0x3B#8, 0x1C#8, 0x01#8,
  0x52#8, 0x4F#8, 0x68#8, 0x75#8, 0xCE#8, 0xD3#8, 0xF4#8, 0xE9#8, 0xBA#8, 0xA7#8, 0x80#8, 0x9D#8,
  0xEB#8, 0xF6#8, 0xD1#8, 0xCC#8, 0x9F#8, 0x82#8, 0xA5#8, 0xB8#8, 0x03#8, 0x1E#8, 0x39#8, 0x24#8,
  0x77#8, 0x6A#8, 0x4D#8, 0x50#8, 0xA1#8, 0xBC#8, 0x9B#8, 0x86#8, 0xD5#8, 0xC8#8, 0xEF#8, 0xF2#8,
  0x49#8, 0x54#8, 0x73#8, 0x6E#8, 0x3D#8, 0x20#8, 0x07#8, 0x1A#8, 0x6C#8, 0x71#8, 0x56#8, 0x4B#8,
  0x18#8, 0x05#8, 0x22#8, 0x3F#8, 0x84#8, 0x99#8, 0xBE#8, 0xA3#8, 0xF0#8, 0xED#8, 0xCA#8, 0xD7#8,
  0x35#8, 0x28#8, 0x0F#8, 0x12#8, 0x41#8, 0x5C#8, 0x7B#8, 0x66#8, 0xDD#8, 0xC0#8, 0xE7#8, 0xFA#8,
  0xA9#8, 0xB4#8, 0x93#8, 0x8E#8, 0xF8#8, 0xE5#8, 0xC2#8, 0xDF#8, 0x8C#8, 0x91#8, 0xB6#8, 0xAB#8,
  0x10#8, 0x0D#8, 0x2A#8, 0x37#8, 0x64#8, 0x79#8, 0x5E#8, 0x43#8, 0xB2#8, 0xAF#8, 0x88#8, 0x95#8,
  0xC6#8, 0xDB#8, 0xFC#8, 0xE1#8, 0x5A#8, 0x47#8, 0x60#8, 0x7D#8, 0x2E#8, 0x33#8, 0x14#8, 0x09#8,
  0x7F#8, 0x62#8, 0x45#8, 0x58#8, 0x0B#8, 0x16#8, 0x31#8, 0x2C#8, 0x97#8, 0x8A#8, 0xAD#8, 0xB0#8,
  0xE3#8, 0xFE#8, 0xD9#8, 0xC4#8]

/-- The table of `Crc8_8h2f`. -/
def table8_2F : Table 8 := #v[
  0x00#8, 0x2F#8, 0x5E#8, 0x71#8, 0xBC#8, 0x93#8, 0xE2#8, 0xCD#8, 0x57#8, 0x78#8, 0x09#8, 0x26#8,
  0xEB#8, 0xC4#8, 0xB5#8, 0x9A#8, 0xAE#8, 0x81#8, 0xF0#8, 0xDF#8, 0x12#8, 0x3D#8, 0x4C#8, 0x63#8,
  0xF9#8, 0xD6#8, 0xA7#8, 0x88#8, 0x45#8, 0x6A#8, 0x1B#8, 0x34#8, 0x73#8, 0x5C#8, 0x2D#8, 0x02#8,
  0xCF#8, 0xE0#8, 0x91#8, 0xBE#8, 0x24#8, 0x0B#8, 0x7A#8, 0x55#8, 0x98#8, 0xB7#8, 0xC6#8, 0xE9#8,
  0xDD#8, 0xF2#8, 0x83#8, 0xAC#8, 0x61#8, 0x4E#8, 0x3F#8, 0x10#8, 0x8A#8, 0xA5#8, 0xD4#8, 0xFB#8,
  0x36#8, 0x19#8, 0x68#8, 0x47#8, 0xE6#8, 0xC9#8, 0xB8#8, 0x97#8, 0x5A#8, 0x75#8, 0x04#8, 0x2B#8,
  0xB1#8, 0x9E#8, 0xEF#8, 0xC0#8, 0x0D#8, 0x22#8, 0x53#8, 0x7C#8, 0x48#8, 0x67#8, 0x16#8, 0x39#8,
  0xF4#8, 0xDB#8, 0xAA#8, 0x85#8, 0x1F#8, 0x30#8, 0x41#8, 0x6E#8, 0xA3#8, 0x8C#8, 0xFD#8, 0xD2#8,
  0x95#8, 0xBA#8, 0xCB#8, 0xE4#8, 0x29#8, 0x06#8, 0x77#8, 0x58#8, 0xC2#8, 0xED#8, 0x9C#8, 0xB3#8,
  0x7E#8, 0x51#8, 0x20#8, 0x0F#8, 0x3B#8, 0x14#8, 0x65#8, 0x4A#8, 0x87#8, 0xA8#8, 0xD9#8, 0xF6#8,
  0x6C#8, 0x43#8, 0x32#8, 0x1D#8, 0xD0#8, 0xFF#8, 0x8E#8, 0xA1#8, 0xE3#8, 0xCC#8, 0xBD#8, 0x92#8,
  0x5F#8, 0x70#8, 0x01#8, 0x2E#8, 0xB4#8, 0x9B#8, 0xEA#8, 0xC5#8, 0x08#8, 0x27#8, 0x56#8, 0x79#8,
  0x4D#8, 0x62#8, 0x13#8, 0x3C#8, 0xF1#8, 0xDE#8, 0xAF#8, 0x80#8, 0x1A#8, 0x35#8, 0x44#8, 0x6B#8,
  0xA6#8, 0x89#8, 0xF8#8, 0xD7#8, 0x90#8, 0xBF#8, 0xCE#8, 0xE1#8, 0x2C#8, 0x03#8, 0x72#8, 0x5D#8,
  0xC7#8, 0xE8#8, 0x99#8, 0xB6#8, 0x7B#8, 0x54#8, 0x25#8, 0x0A#8, 0x3E#8, 0x11#8, 0x60#8, 0x4F#8,
  0x82#8, 0xAD#8, 0xDC#8, 0xF3#8, 0x69#8, 0x46#8, 0x37#8, 0x18#8, 0xD5#8, 0xFA#8, 0x8B#8, 0xA4#8,
  0x05#8, 0x2A#8, 0x5B#8, 0x74#8, 0xB9#8, 0x96#8, 0xE7#8, 0xC8#8, 0x52#8, 0x7D#8, 0x0C#8, 0x23#8,
  0xEE#8, 0xC1#8, 0xB0#8, 0x9F#8, 0xAB#8, 0x84#8, 0xF5#8, 0xDA#8, 0x17#8, 0x38#8, 0x49#8, 0x66#8,
  0xFC#8, 0xD3#8, 0xA2#8, 0x8D#8, 0x40#8, 0x6F#8, 0x1E#8, 0x31#8, 0x76#8, 0x59#8, 0x28#8, 0x07#8,
  0xCA#8, 0xE5#8, 0x94#8, 0xBB#8, 0x21#8, 0x0E#8, 0x7F#8, 0x50#8, 0x9D#8, 0xB2#8, 0xC3#8, 0xEC#8,
  0xD8#8, 0xF7#8, 0x86#8, 0xA9#8, 0x64#8, 0x4B#8, 0x3A#8, 0x15#8, 0x8F#8, 0xA0#8, 0xD1#8, 0xFE#8,
  0x33#8, 0x1C#8, 0x6D#8, 0x42#8]

/-- The table of `Crc8_maxim`. -/
def table8_31 : Table 8 := #v[
  0x00#8, 0x31#8, 0x62#8, 0x53#8, 0xC4#8, 0xF5#8, 0xA6#8, 0x97#8, 0xB9#8, 0x88#8, 0xDB#8, 0xEA#8,
  0x7D#8, 0x4C#8, 0x1F#8, 0x2E#8, 0x43#8, 0x72#8, 0x21#8, 0x10#8, 0x87#8, 0xB6#8, 0xE5#8, 0xD4#8,
  0xFA#8, 0xCB#8, 0x98#8, 0xA9#8, 0x3E#8, 0x0F#8, 0x5C#8, 0x6D#8, 0x86#8, 0xB7#8, 0xE4#8, 0xD5#8,
  0x42#8, 0x73#8, 0x20#8, 0x11#8, 0x3F#8, 0x0E#8, 0x5D#8, 0x6C#8, 0xFB#8, 0xCA#8, 0x99#8, 0xA8#8,
  0xC5#8, 0xF4#8, 0xA7#8, 0x96#8, 0x01#8, 0x30#8, 0x63#8, 0x52#8, 0x7C#8, 0x4D#8, 0x1E#8, 0x2F#8,
  0xB8#8, 0x89#8, 0xDA#8, 0xEB#8, 0x3D#8, 0x0C#8, 0x5F#8, 0x6E#8, 0xF9#8, 0xC8#8, 0x9B#8, 0xAA#8,
  0x84#8, 0xB5#8, 0xE6#8, 0xD7#8, 0x40#8, 0x71#8, 0x22#8, 0x13#8, 0x7E#8, 0x4F#8, 0x1C#8, 0x2D#8,
  0xBA#8, 0x8B#8, 0xD8#8, 0xE9#8, 0xC7#8, 0xF6#8, 0xA5#8, 0x94#8, 0x03#8, 0x32#8, 0x61#8, 0x50#8,
  0xBB#8, 0x8A#8, 0xD9#8, 0xE8#8, 0x7F#8, 0x4E#8, 0x1D#8, 0x2C#8, 0x02#8, 0x33#8, 0x60#8, 0x51#8,
  0xC6#8, 0xF7#8, 0xA4#8, 0x95#8, 0xF8#8, 0xC9#8, 0x9A#8, 0xAB#8, 0x3C#8, 0x0D#8, 0x5E#8, 0x6F#8,
  0x41#8, 0x70#8, 0x23#8, 0x12#8, 0x85#8, 0xB4#8, 0xE7#8, 0xD6#8, 0x7A#8, 0x4B#8, 0x18#8, 0x29#8,
  0xBE#8, 0x8F#8, 0xDC#8, 0xED#8, 0xC3#8, 0xF2#8, 0xA1#8, 0x90#8, 0x07#8, 0x36#8, 0x65#8, 0x54#8,
  0x39#8, 0x08#8, 0x5B#8, 0x6A#8, 0xFD#8, 0xCC#8, 0x9F#8, 0xAE#8, 0x80#8, 0xB1#8, 0xE2#8, 0xD3#8,
  0x44#8, 0x75#8, 0x26#8, 0x17#8, 0xFC#8, 0xCD#8, 0x9E#8, 0xAF#8, 0x38#8, 0x09#8, 0x5A#8, 0x6B#8,
  0x45#8, 0x74#8, 0x27#8, 0x16#8, 0x81#8, 0xB0#8, 0xE3#8, 0xD2#8, 0xBF#8, 0x8E#8, 0xDD#8, 0xEC#8,
  0x7B#8, 0x4A#8, 0x19#8, 0x28#8, 0x06#8, 0x37#8, 0x64#8, 0x55#8, 0xC2#8, 0xF3#8, 0xA0#8, 0x91#8,
  0x47#8, 0x76#8, 0x25#8, 0x14#8, 0x83#8, 0xB2#8, 0xE1#8, 0xD0#8, 0xFE#8, 0xCF#8, 0x9C#8, 0xAD#8,
  0x3A#8, 0x0B#8, 0x58#8, 0x69#8, 0x04#8, 0x35#8, 0x66#8, 0x57#8, 0xC0#8, 0xF1#8, 0xA2#8, 0x93#8,
  0xBD#8, 0x8C#8, 0xDF#8, 0xEE#8, 0x79#8, 0x48#8, 0x1B#8, 0x2A#8, 0xC1#8, 0xF0#8, 0xA3#8, 0x92#8,
  0x05#8, 0x34#8, 0x67#8, 0x56#8, 0x78#8, 0x49#8, 0x1A#8, 0x2B#8, 0xBC#8, 0x8D#8, 0xDE#8, 0xEF#8,
  0x82#8, 0xB3#8, 0xE0#8, 0xD1#8, 0x46#8, 0x77#8, 0x24#8, 0x15#8, 0x3B#8, 0x0A#8, 0x59#8, 0x68#8,
  0xFF#8, 0xCE#8, 0x9D#8, 0xAC#8]

/-- The table of `Crc8_darc`. -/
def table8_39 : Table 8 := #v[
  0x00#8, 0x39#8, 0x72#8, 0x4B#8, 0xE4#8, 0xDD#8, 0x96#8, 0xAF#8, 0xF1#8, 0xC8#8, 0x83#8, 0xBA#8,
  0x15#8, 0x2C#8, 0x67#8, 0x5E#8, 0xDB#8, 0xE2#8, 0xA9#8, 0x90#8, 0x3F#8, 0x06#8, 0x4D#8, 0x74#8,
  0x2A#8, 0x13#8, 0x58#8, 0x61#8, 0xCE#8, 0xF7#8, 0xBC#8, 0x85#8, 0x8F#8, 0xB6#8, 0xFD#8, 0xC4#8,
  0x6B#8, 0x52#8, 0x19#8, 0x20#8, 0x7E#8, 0x47#8, 0x0C#8, 0x35#8, 0x9A#8, 0xA3#8, 0xE8#8, 0xD1#8,
  0x54#8, 0x6D#8, 0x26#8, 0x1F#8, 0xB0#8, 0x89#8, 0xC2#8, 0xFB#8, 0xA5#8, 0x9C#8, 0xD7#8, 0xEE#8,
  0x41#8, 0x78#8, 0x33#8, 0x0A#8, 0x27#8, 0x1E#8, 0x55#8, 0x6C#8, 0xC3#8, 0xFA#8, 0xB1#8, 0x88#8,
  0xD6#8, 0xEF#8, 0xA4#8, 0x9D#8, 0x32#8, 0x0B#8, 0x40#8, 0x79#8, 0xFC#8, 0xC5#8, 0x8E#8, 0xB7#8,
  0x18#8, 0x21#8, 0x6A#8, 0x53#8, 0x0D#8, 0x34#8, 0x7F#8, 0x46#8, 0xE9#8, 0xD0#8, 0x9B#8, 0xA2#8,
  0xA8#8, 0x91#8, 0xDA#8, 0xE3#8, 0x4C#8, 0x75#8, 0x3E#8, 0x07#8, 0x59#8, 0x60#8, 0x2B#8, 0x12#8,
  0xBD#8, 0x84#8, 0xCF#8, 0xF6#8, 0x73#8, 0x4A#8, 0x01#8, 0x38#8, 0x97#8, 0xAE#8, 0xE5#8, 0xDC#8,
  0x82#8, 0xBB#8, 0xF0#8, 0xC9#8, 0x66#8, 0x5F#8, 0x14#8, 0x2D#8, 0x4E#8, 0x77#8, 0x3C#8, 0x05#8,
  0xAA#8, 0x93#8, 0xD8#8, 0xE1#8, 0xBF#8, 0x86#8, 0xCD#8, 0xF4#8, 0x5B#8, 0x62#8, 0x29#8, 0x10#8,
  0x95#8, 0xAC#8, 0xE7#8, 0xDE#8, 0x71#8, 0x48#8, 0x03#8, 0x3A#8, 0x64#8, 0x5D#8, 0x16#8, 0x2F#8,
  0x80#8, 0xB9#8, 0xF2#8, 0xCB#8, 0xC1#8, 0xF8#8, 0xB3#8, 0x8A#8, 0x25#8, 0x1C#8, 0x57#8, 0x6E#8,
  0x30#8, 0x09#8, 0x42#8, 0x7B#8, 0xD4#8, 0xED#8, 0xA6#8, 0x9F#8, 0x1A#8, 0x23#8, 0x68#8, 0x51#8,
  0xFE#8, 0xC7#8, 0x8C#8, 0xB5#8, 0xEB#8, 0xD2#8, 0x99#8, 0xA0#8, 0x0F#8, 0x36#8, 0x7D#8, 0x44#8,
  0x69#8, 0x50#8, 0x1B#8, 0x22#8, 0x8D#8, 0xB4#8, 0xFF#8, 0xC6#8, 0x98#8, 0xA1#8, 0xEA#8, 0xD3#8,
  0x7C#8, 0x45#8, 0x0E#8, 0x37#8, 0xB2#8, 0x8B#8, 0xC0#8, 0xF9#8, 0x56#8, 0x6F#8, 0x24#8, 0x1D#8,
  0x43#8, 0x7A#8, 0x31#8, 0x08#8, 0xA7#8, 0x9E#8, 0xD5#8, 0xEC#8, 0xE6#8, 0xDF#8, 0x94#8, 0xAD#8,
  0x02#8, 0x3B#8, 0x70#8, 0x49#8, 0x17#8, 0x2E#8, 0x65#8, 0x5C#8, 0xF3#8, 0xCA#8, 0x81#8, 0xB8#8,
  0x3D#8, 0x04#8, 0x4F#8, 0x76#8, 0xD9#8, 0xE0#8, 0xAB#8, 0x92#8, 0xCC#8, 0xF5#8, 0xBE#8, 0x87#8,
  0x28#8, 0x11#8, 0x5A#8, 0x63#8]

/-- The table of `Crc8_cdma2000`, `Crc8_wcdma`. -/
def table8_9B : Table 8 := #v[
  0x00#8, 0x9B#8, 0xAD#8, 0x36#8, 0xC1#8, 0x5A#8, 0x6C#8, 0xF7#8, 0x19#8, 0x82#8, 0xB4#8, 0x2F#8,
  0xD8#8, 0x43#8, 0x75#8, 0xEE#8, 0x32#8, 0xA9#8, 0x9F#8, 0x04#8, 0xF3#8, 0x68#8, 0x5E#8, 0xC5#8,
  0x2B#8, 0xB0#8, 0x86#8, 0x1D#8, 0xEA#8, 0x71#8, 0x47#8, 0xDC#8, 0x64#8, 0xFF#8, 0xC9#8, 0x52#8,
  0xA5#8, 0x3E#8, 0x08#8, 0x93#8, 0x7D#8, 0xE6#8, 0xD0#8, 0x4B#8, 0xBC#8, 0x27#8, 0x11#8, 0x8A#8,
  0x56#8, 0xCD#8, 0xFB#8, 0x60#8, 0x97#8, 0x0C#8, 0x3A#8, 0xA1#8, 0x4F#8, 0xD4#8, 0xE2#8, 0x79#8,
  0x8E#8, 0x15#8, 0x23#8, 0xB8#8, 0xC8#8, 0x53#8, 0x65#8, 0xFE#8, 0x09#8, 0x92#8, 0xA4#8, 0x3F#8,
  0xD1#8, 0x4A#8, 0x7C#8, 0xE7#8, 0x10#8, 0x8B#8, 0xBD#8, 0x26#8, 0xFA#8, 0x61#8, 0x57#8, 0xCC#8,
  0x3B#8, 0xA0#8, 0x96#8, 0x0D#8, 0xE3#8, 0x78#8, 0x4E#8, 0xD5#8, 0x22#8, 0xB9#8, 0x8F#8, 0x14#8,
  0xAC#8, 0x37#8, 0x01#8, 0x9A#8, 0x6D#8, 0xF6#8, 0xC0#8, 0x5B#8, 0xB5#8, 0x2E#8, 0x18#8, 0x83#8,
  0x74#8, 0xEF#8, 0xD9#8, 0x42#8, 0x9E#8, 0x05#8, 0x33#8, 0xA8#8, 0x5F#8, 0xC4#8, 0xF2#8, 0x69#8,
  0x87#8, 0x1C#8, 0x2A#8, 0xB1#8, 0x46#8, 0xDD#8, 0xEB#8, 0x70#8, 0x0B#8, 0x90#8, 0xA6#8, 0x3D#8,
  0xCA#8, 0x51#8, 0x67#8, 0xFC#8, 0x12#8, 0x89#8, 0xBF#8, 0x24#8, 0xD3#8, 0x48#8, 0x7E#8, 0xE5#8,
  0x39#8, 0xA2#8, 0x94#8, 0x0F#8, 0xF8#8, 0x63#8, 0x55#8, 0xCE#8, 0x20#8, 0xBB#8, 0x8D#8, 0x16#8,
  0xE1#8, 0x7A#8, 0x4C#8, 0xD7#8, 0x6F#8, 0xF4#8, 0xC2#8, 0x59#8, 0xAE#8, 0x35#8, 0x03#8, 0x98#8,
  0x76#8, 0xED#8, 0xDB#8, 0x40#8, 0xB7#8, 0x2C#8, 0x1A#8, 0x81#8, 0x5D#8, 0xC6#8, 0xF0#8, 0x6B#8,
  0x9C#8, 0x07#8, 0x31#8, 0xAA#8, 0x44#8, 0xDF#8, 0xE9#8, 0x72#8, 0x85#8, 0x1E#8, 0x28#8, 0xB3#8,
  0xC3#8, 0x58#8, 0x6E#8, 0xF5#8, 0x02#8, 0x99#8, 0xAF#8, 0x34#8, 0xDA#8, 0x41#8, 0x77#8, 0xEC#8,
  0x1B#8, 0x80#8, 0xB6#8, 0x2D#8, 0xF1#8, 0x6A#8, 0x5C#8, 0xC7#8, 0x30#8, 0xAB#8, 0x9D#8, 0x06#8,
  0xE8#8, 0x73#8, 0x45#8, 0xDE#8, 0x29#8, 0xB2#8, 0x84#8, 0x1F#8, 0xA7#8, 0x3C#8, 0x0A#8, 0x91#8,
  0x66#8, 0xFD#8, 0xCB#8, 0x50#8, 0xBE#8, 0x25#8, 0x13#8, 0x88#8, 0x7F#8, 0xE4#8, 0xD2#8, 0x49#8,
  0x95#8, 0x0E#8, 0x38#8, 0xA3#8, 0x54#8, 0xCF#8, 0xF9#8, 0x62#8, 0x8C#8, 0x17#8, 0x21#8, 0xBA#8,
  0x4D#8, 0xD6#8, 0xE0#8, 0x7B#8]

/-- The table of `Crc8_dvbS2`. -/
def table8_D5 : Table 8 := #v[
  0x00#8, 0xD5#8, 0x7F#8, 0xAA#8, 0xFE#8, 0x2B#8, 0x81#8, 0x54#8, 0x29#8, 0xFC#8, 0x56#8, 0x83#8,
  0xD7#8, 0x02#8, 0xA8#8, 0x7D#8, 0x52#8, 0x87#8, 0x2D#8, 0xF8#8, 0xAC#8, 0x79#8, 0xD3#8, 0x06#8,
  0x7B#8, 0xAE#8, 0x04#8, 0xD1#8, 0x85#8, 0x50#8, 0xFA#8, 0x2F#8, 0xA4#8, 0x71#8, 0xDB#8, 0x0E#8,
  0x5A#8, 0x8F#8, 0x25#8, 0xF0#8, 0x8D#8, 0x58#8, 0xF2#8, 0x27#8, 0x73#8, 0xA6#8, 0x0C#8, 0xD9#8,
  0xF6#8, 0x23#8, 0x89#8, 0x5C#8, 0x08#8, 0xDD#8, 0x77#8, 0xA2#8, 0xDF#8, 0x0A#8, 0xA0#8, 0x75#8,
  0x21#8, 0xF4#8, 0x5E#8, 0x8B#8, 0x9D#8, 0x48#8, 0xE2#8, 0x37#8, 0x63#8, 0xB6#8, 0x1C#8, 0xC9#8,
  0xB4#8, 0x61#8, 0xCB#8, 0x1E#8, 0x4A#8, 0x9F#8, 0x35#8, 0xE0#8, 0xCF#8, 0x1A#8, 0xB0#8, 0x65#8,
  0x31#8, 0xE4#8, 0x4E#8, 0x9B#8, 0xE6#8, 0x33#8, 0x99#8, 0x4C#8, 0x18#8, 0xCD#8, 0x67#8, 0xB2#8,
  0x39#8, 0xEC#8, 0x46#8, 0x93#8, 0xC7#8, 0x12#8, 0xB8#8, 0x6D#8, 0x10#8, 0xC5#8, 0x6F#8, 0xBA#8,
  0xEE#8, 0x3B#8, 0x91#8, 0x44#8, 0x6B#8, 0xBE#8, 0x14#8, 0xC1#8, 0x95#8, 0x40#8, 0xEA#8, 0x3F#8,
  0x42#8, 0x97#8, 0x3D#8, 0xE8#8, 0xBC#8, 0x69#8, 0xC3#8, 0x16#8, 0xEF#8, 0x3A#8, 0x90#8, 0x45#8,
  0x11#8, 0xC4#8, 0x6E#8, 0xBB#8, 0xC6#8, 0x13#8, 0xB9#8, 0x6C#8, 0x38#8, 0xED#8, 0x47#8, 0x92#8,
  0xBD#8, 0x68#8, 0xC2#8, 0x17#8, 0x43#8, 0x96#8, 0x3C#8, 0xE9#8, 0x94#8, 0x41#8, 0xEB#8, 0x3E#8,
  0x6A#8, 0xBF#8, 0x15#8, 0xC0#8, 0x4B#8, 0x9E#8, 0x34#8, 0xE1#8, 0xB5#8, 0x60#8, 0xCA#8, 0x1F#8,
  0x62#8, 0xB7#8, 0x1D#8, 0xC8#8, 0x9C#8, 0x49#8, 0xE3#8, 0x36#8, 0x19#8, 0xCC#8, 0x66#8, 0xB3#8,
  0xE7#8, 0x32#8, 0x98#8, 0x4D#8, 0x30#8, 0xE5#8, 0x4F#8, 0x9A#8, 0xCE#8, 0x1B#8, 0xB1#8, 0x64#8,
  0x72#8, 0xA7#8, 0x0D#8, 0xD8#8, 0x8C#8, 0x59#8, 0xF3#8, 0x26#8, 0x5B#8, 0x8E#8, 0x24#8, 0xF1#8,
  0xA5#8, 0x70#8, 0xDA#8, 0x0F#8, 0x20#8, 0xF5#8, 0x5F#8, 0x8A#8, 0xDE#8, 0x0B#8, 0xA1#8, 0x74#8,
  0x09#8, 0xDC#8, 0x76#8, 0xA3#8, 0xF7#8, 0x22#8, 0x88#8, 0x5D#8, 0xD6#8, 0x03#8, 0xA9#8, 0x7C#8,
  0x28#8, 0xFD#8, 0x57#8, 0x82#8, 0xFF#8, 0x2A#8, 0x80#8, 0x55#8, 0x01#8, 0xD4#8, 0x7E#8, 0xAB#8,
  0x84#8, 0x51#8, 0xFB#8, 0x2E#8, 0x7A#8, 0xAF#8, 0x05#8, 0xD0#8, 0xAD#8, 0x78#8, 0xD2#8, 0x07#8,
  0x53#8, 0x86#8, 0x2C#8, 0xF9#8]

/-! ## CRC-16

Seven polynomials for twenty-three functions; ten of them use `0x1021`. -/

/-- The table of `Crc16_dectR`, `Crc16_dectX`. -/
def table16_0589 : Table 16 := #v[
  0x0000#16, 0x0589#16, 0x0B12#16, 0x0E9B#16, 0x1624#16, 0x13AD#16, 0x1D36#16, 0x18BF#16, 0x2C48#16, 0x29C1#16,
  0x275A#16, 0x22D3#16, 0x3A6C#16, 0x3FE5#16, 0x317E#16, 0x34F7#16, 0x5890#16, 0x5D19#16, 0x5382#16, 0x560B#16,
  0x4EB4#16, 0x4B3D#16, 0x45A6#16, 0x402F#16, 0x74D8#16, 0x7151#16, 0x7FCA#16, 0x7A43#16, 0x62FC#16, 0x6775#16,
  0x69EE#16, 0x6C67#16, 0xB120#16, 0xB4A9#16, 0xBA32#16, 0xBFBB#16, 0xA704#16, 0xA28D#16, 0xAC16#16, 0xA99F#16,
  0x9D68#16, 0x98E1#16, 0x967A#16, 0x93F3#16, 0x8B4C#16, 0x8EC5#16, 0x805E#16, 0x85D7#16, 0xE9B0#16, 0xEC39#16,
  0xE2A2#16, 0xE72B#16, 0xFF94#16, 0xFA1D#16, 0xF486#16, 0xF10F#16, 0xC5F8#16, 0xC071#16, 0xCEEA#16, 0xCB63#16,
  0xD3DC#16, 0xD655#16, 0xD8CE#16, 0xDD47#16, 0x67C9#16, 0x6240#16, 0x6CDB#16, 0x6952#16, 0x71ED#16, 0x7464#16,
  0x7AFF#16, 0x7F76#16, 0x4B81#16, 0x4E08#16, 0x4093#16, 0x451A#16, 0x5DA5#16, 0x582C#16, 0x56B7#16, 0x533E#16,
  0x3F59#16, 0x3AD0#16, 0x344B#16, 0x31C2#16, 0x297D#16, 0x2CF4#16, 0x226F#16, 0x27E6#16, 0x1311#16, 0x1698#16,
  0x1803#16, 0x1D8A#16, 0x0535#16, 0x00BC#16, 0x0E27#16, 0x0BAE#16, 0xD6E9#16, 0xD360#16, 0xDDFB#16, 0xD872#16,
  0xC0CD#16, 0xC544#16, 0xCBDF#16, 0xCE56#16, 0xFAA1#16, 0xFF28#16, 0xF1B3#16, 0xF43A#16, 0xEC85#16, 0xE90C#16,
  0xE797#16, 0xE21E#16, 0x8E79#16, 0x8BF0#16, 0x856B#16, 0x80E2#16, 0x985D#16, 0x9DD4#16, 0x934F#16, 0x96C6#16,
  0xA231#16, 0xA7B8#16, 0xA923#16, 0xACAA#16, 0xB415#16, 0xB19C#16, 0xBF07#16, 0xBA8E#16, 0xCF92#16, 0xCA1B#16,
  0xC480#16, 0xC109#16, 0xD9B6#16, 0xDC3F#16, 0xD2A4#16, 0xD72D#16, 0xE3DA#16, 0xE653#16, 0xE8C8#16, 0xED41#16,
  0xF5FE#16, 0xF077#16, 0xFEEC#16, 0xFB65#16, 0x9702#16, 0x928B#16, 0x9C10#16, 0x9999#16, 0x8126#16, 0x84AF#16,
  0x8A34#16, 0x8FBD#16, 0xBB4A#16, 0xBEC3#16, 0xB058#16, 0xB5D1#16, 0xAD6E#16, 0xA8E7#16, 0xA67C#16, 0xA3F5#16,
  0x7EB2#16, 0x7B3B#16, 0x75A0#16, 0x7029#16, 0x6896#16, 0x6D1F#16, 0x6384#16, 0x660D#16, 0x52FA#16, 0x5773#16,
  0x59E8#16, 0x5C61#16, 0x44DE#16, 0x4157#16, 0x4FCC#16, 0x4A45#16, 0x2622#16, 0x23AB#16, 0x2D30#16, 0x28B9#16,
  0x3006#16, 0x358F#16, 0x3B14#16, 0x3E9D#16, 0x0A6A#16, 0x0FE3#16, 0x0178#16, 0x04F1#16, 0x1C4E#16, 0x19C7#16,
  0x175C#16, 0x12D5#16, 0xA85B#16, 0xADD2#16, 0xA349#16, 0xA6C0#16, 0xBE7F#16, 0xBBF6#16, 0xB56D#16, 0xB0E4#16,
  0x8413#16, 0x819A#16, 0x8F01#16, 0x8A88#16, 0x9237#16, 0x97BE#16, 0x9925#16, 0x9CAC#16, 0xF0CB#16, 0xF542#16,
  0xFBD9#16, 0xFE50#16, 0xE6EF#16, 0xE366#16, 0xEDFD#16, 0xE874#16, 0xDC83#16, 0xD90A#16, 0xD791#16, 0xD218#16,
  0xCAA7#16, 0xCF2E#16, 0xC1B5#16, 0xC43C#16, 0x197B#16, 0x1CF2#16, 0x1269#16, 0x17E0#16, 0x0F5F#16, 0x0AD6#16,
  0x044D#16, 0x01C4#16, 0x3533#16, 0x30BA#16, 0x3E21#16, 0x3BA8#16, 0x2317#16, 0x269E#16, 0x2805#16, 0x2D8C#16,
  0x41EB#16, 0x4462#16, 0x4AF9#16, 0x4F70#16, 0x57CF#16, 0x5246#16, 0x5CDD#16, 0x5954#16, 0x6DA3#16, 0x682A#16,
  0x66B1#16, 0x6338#16, 0x7B87#16, 0x7E0E#16, 0x7095#16, 0x751C#16]

/-- The table of `Crc16_a`, `Crc16_augCcit`, `Crc16_ccitFalse`, `Crc16_ccitZero`, `Crc16_genibus`,
`Crc16_kermit`, `Crc16_mcrf4xx`, `Crc16_riello`, `Crc16_tms37157`, `Crc16_x25`. -/
def table16_1021 : Table 16 := #v[
  0x0000#16, 0x1021#16, 0x2042#16, 0x3063#16, 0x4084#16, 0x50A5#16, 0x60C6#16, 0x70E7#16, 0x8108#16, 0x9129#16,
  0xA14A#16, 0xB16B#16, 0xC18C#16, 0xD1AD#16, 0xE1CE#16, 0xF1EF#16, 0x1231#16, 0x0210#16, 0x3273#16, 0x2252#16,
  0x52B5#16, 0x4294#16, 0x72F7#16, 0x62D6#16, 0x9339#16, 0x8318#16, 0xB37B#16, 0xA35A#16, 0xD3BD#16, 0xC39C#16,
  0xF3FF#16, 0xE3DE#16, 0x2462#16, 0x3443#16, 0x0420#16, 0x1401#16, 0x64E6#16, 0x74C7#16, 0x44A4#16, 0x5485#16,
  0xA56A#16, 0xB54B#16, 0x8528#16, 0x9509#16, 0xE5EE#16, 0xF5CF#16, 0xC5AC#16, 0xD58D#16, 0x3653#16, 0x2672#16,
  0x1611#16, 0x0630#16, 0x76D7#16, 0x66F6#16, 0x5695#16, 0x46B4#16, 0xB75B#16, 0xA77A#16, 0x9719#16, 0x8738#16,
  0xF7DF#16, 0xE7FE#16, 0xD79D#16, 0xC7BC#16, 0x48C4#16, 0x58E5#16, 0x6886#16, 0x78A7#16, 0x0840#16, 0x1861#16,
  0x2802#16, 0x3823#16, 0xC9CC#16, 0xD9ED#16, 0xE98E#16, 0xF9AF#16, 0x8948#16, 0x9969#16, 0xA90A#16, 0xB92B#16,
  0x5AF5#16, 0x4AD4#16, 0x7AB7#16, 0x6A96#16, 0x1A71#16, 0x0A50#16, 0x3A33#16, 0x2A12#16, 0xDBFD#16, 0xCBDC#16,
  0xFBBF#16, 0xEB9E#16, 0x9B79#16, 0x8B58#16, 0xBB3B#16, 0xAB1A#16, 0x6CA6#16, 0x7C87#16, 0x4CE4#16, 0x5CC5#16,
  0x2C22#16, 0x3C03#16, 0x0C60#16, 0x1C41#16, 0xEDAE#16, 0xFD8F#16, 0xCDEC#16, 0xDDCD#16, 0xAD2A#16, 0xBD0B#16,
  0x8D68#16, 0x9D49#16, 0x7E97#16, 0x6EB6#16, 0x5ED5#16, 0x4EF4#16, 0x3E13#16, 0x2E32#16, 0x1E51#16, 0x0E70#16,
  0xFF9F#16, 0xEFBE#16, 0xDFDD#16, 0xCFFC#16, 0xBF1B#16, 0xAF3A#16, 0x9F59#16, 0x8F78#16, 0x9188#16, 0x81A9#16,
  0xB1CA#16, 0xA1EB#16, 0xD10C#16, 0xC12D#16, 0xF14E#16, 0xE16F#16, 0x1080#16, 0x00A1#16, 0x30C2#16, 0x20E3#16,
  0x5004#16, 0x4025#16, 0x7046#16, 0x6067#16, 0x83B9#16, 0x9398#16, 0xA3FB#16, 0xB3DA#16, 0xC33D#16, 0xD31C#16,
  0xE37F#16, 0xF35E#16, 0x02B1#16, 0x1290#16, 0x22F3#16, 0x32D2#16, 0x4235#16, 0x5214#16, 0x6277#16, 0x7256#16,
  0xB5EA#16, 0xA5CB#16, 0x95A8#16, 0x8589#16, 0xF56E#16, 0xE54F#16, 0xD52C#16, 0xC50D#16, 0x34E2#16, 0x24C3#16,
  0x14A0#16, 0x0481#16, 0x7466#16, 0x6447#16, 0x5424#16, 0x4405#16, 0xA7DB#16, 0xB7FA#16, 0x8799#16, 0x97B8#16,
  0xE75F#16, 0xF77E#16, 0xC71D#16, 0xD73C#16, 0x26D3#16, 0x36F2#16, 0x0691#16, 0x16B0#16, 0x6657#16, 0x7676#16,
  0x4615#16, 0x5634#16, 0xD94C#16, 0xC96D#16, 0xF90E#16, 0xE92F#16, 0x99C8#16, 0x89E9#16, 0xB98A#16, 0xA9AB#16,
  0x5844#16, 0x4865#16, 0x7806#16, 0x6827#16, 0x18C0#16, 0x08E1#16, 0x3882#16, 0x28A3#16, 0xCB7D#16, 0xDB5C#16,
  0xEB3F#16, 0xFB1E#16, 0x8BF9#16, 0x9BD8#16, 0xABBB#16, 0xBB9A#16, 0x4A75#16, 0x5A54#16, 0x6A37#16, 0x7A16#16,
  0x0AF1#16, 0x1AD0#16, 0x2AB3#16, 0x3A92#16, 0xFD2E#16, 0xED0F#16, 0xDD6C#16, 0xCD4D#16, 0xBDAA#16, 0xAD8B#16,
  0x9DE8#16, 0x8DC9#16, 0x7C26#16, 0x6C07#16, 0x5C64#16, 0x4C45#16, 0x3CA2#16, 0x2C83#16, 0x1CE0#16, 0x0CC1#16,
  0xEF1F#16, 0xFF3E#16, 0xCF5D#16, 0xDF7C#16, 0xAF9B#16, 0xBFBA#16, 0x8FD9#16, 0x9FF8#16, 0x6E17#16, 0x7E36#16,
  0x4E55#16, 0x5E74#16, 0x2E93#16, 0x3EB2#16, 0x0ED1#16, 0x1EF0#16]

/-- The table of `Crc16_dnp`, `Crc16_en13757`. -/
def table16_3D65 : Table 16 := #v[
  0x0000#16, 0x3D65#16, 0x7ACA#16, 0x47AF#16, 0xF594#16, 0xC8F1#16, 0x8F5E#16, 0xB23B#16, 0xD64D#16, 0xEB28#16,
  0xAC87#16, 0x91E2#16, 0x23D9#16, 0x1EBC#16, 0x5913#16, 0x6476#16, 0x91FF#16, 0xAC9A#16, 0xEB35#16, 0xD650#16,
  0x646B#16, 0x590E#16, 0x1EA1#16, 0x23C4#16, 0x47B2#16, 0x7AD7#16, 0x3D78#16, 0x001D#16, 0xB226#16, 0x8F43#16,
  0xC8EC#16, 0xF589#16, 0x1E9B#16, 0x23FE#16, 0x6451#16, 0x5934#16, 0xEB0F#16, 0xD66A#16, 0x91C5#16, 0xACA0#16,
  0xC8D6#16, 0xF5B3#16, 0xB21C#16, 0x8F79#16, 0x3D42#16, 0x0027#16, 0x4788#16, 0x7AED#16, 0x8F64#16, 0xB201#16,
  0xF5AE#16, 0xC8CB#16, 0x7AF0#16, 0x4795#16, 0x003A#16, 0x3D5F#16, 0x5929#16, 0x644C#16, 0x23E3#16, 0x1E86#16,
  0xACBD#16, 0x91D8#16, 0xD677#16, 0xEB12#16, 0x3D36#16, 0x0053#16, 0x47FC#16, 0x7A99#16, 0xC8A2#16, 0xF5C7#16,
  0xB268#16, 0x8F0D#16, 0xEB7B#16, 0xD61E#16, 0x91B1#16, 0xACD4#16, 0x1EEF#16, 0x238A#16, 0x6425#16, 0x5940#16,
  0xACC9#16, 0x91AC#16, 0xD603#16, 0xEB66#16, 0x595D#16, 0x6438#16, 0x2397#16, 0x1EF2#16, 0x7A84#16, 0x47E1#16,
  0x004E#16, 0x3D2B#16, 0x8F10#16, 0xB275#16, 0xF5DA#16, 0xC8BF#16, 0x23AD#16, 0x1EC8#16, 0x5967#16, 0x6402#16,
  0xD639#16, 0xEB5C#16, 0xACF3#16, 0x9196#16, 0xF5E0#16, 0xC885#16, 0x8F2A#16, 0xB24F#16, 0x0074#16, 0x3D11#16,
  0x7ABE#16, 0x47DB#16, 0xB252#16, 0x8F37#16, 0xC898#16, 0xF5FD#16, 0x47C6#16, 0x7AA3#16, 0x3D0C#16, 0x0069#16,
  0x641F#16, 0x597A#16, 0x1ED5#16, 0x23B0#16, 0x918B#16, 0xACEE#16, 0xEB41#16, 0xD624#16, 0x7A6C#16, 0x4709#16,
  0x00A6#16, 0x3DC3#16, 0x8FF8#16, 0xB29D#16, 0xF532#16, 0xC857#16, 0xAC21#16, 0x9144#16, 0xD6EB#16, 0xEB8E#16,
  0x59B5#16, 0x64D0#16, 0x237F#16, 0x1E1A#16, 0xEB93#16, 0xD6F6#16, 0x9159#16, 0xAC3C#16, 0x1E07#16, 0x2362#16,
  0x64CD#16, 0x59A8#16, 0x3DDE#16, 0x00BB#16, 0x4714#16, 0x7A71#16, 0xC84A#16, 0xF52F#16, 0xB280#16, 0x8FE5#16,
  0x64F7#16, 0x5992#16, 0x1E3D#16, 0x2358#16, 0x9163#16, 0xAC06#16, 0xEBA9#16, 0xD6CC#16, 0xB2BA#16, 0x8FDF#16,
  0xC870#16, 0xF515#16, 0x472E#16, 0x7A4B#16, 0x3DE4#16, 0x0081#16, 0xF508#16, 0xC86D#16, 0x8FC2#16, 0xB2A7#16,
  0x009C#16, 0x3DF9#16, 0x7A56#16, 0x4733#16, 0x2345#16, 0x1E20#16, 0x598F#16, 0x64EA#16, 0xD6D1#16, 0xEBB4#16,
  0xAC1B#16, 0x917E#16, 0x475A#16, 0x7A3F#16, 0x3D90#16, 0x00F5#16, 0xB2CE#16, 0x8FAB#16, 0xC804#16, 0xF561#16,
  0x9117#16, 0xAC72#16, 0xEBDD#16, 0xD6B8#16, 0x6483#16, 0x59E6#16, 0x1E49#16, 0x232C#16, 0xD6A5#16, 0xEBC0#16,
  0xAC6F#16, 0x910A#16, 0x2331#16, 0x1E54#16, 0x59FB#16, 0x649E#16, 0x00E8#16, 0x3D8D#16, 0x7A22#16, 0x4747#16,
  0xF57C#16, 0xC819#16, 0x8FB6#16, 0xB2D3#16, 0x59C1#16, 0x64A4#16, 0x230B#16, 0x1E6E#16, 0xAC55#16, 0x9130#16,
  0xD69F#16, 0xEBFA#16, 0x8F8C#16, 0xB2E9#16, 0xF546#16, 0xC823#16, 0x7A18#16, 0x477D#16, 0x00D2#16, 0x3DB7#16,
  0xC83E#16, 0xF55B#16, 0xB2F4#16, 0x8F91#16, 0x3DAA#16, 0x00CF#16, 0x4760#16, 0x7A05#16, 0x1E73#16, 0x2316#16,
  0x64B9#16, 0x59DC#16, 0xEBE7#16, 0xD682#16, 0x912D#16, 0xAC48#16]

/-- The table of `Crc16_arc`, `Crc16_buypass`, `Crc16_dds110`, `Crc16_maxim`, `Crc16_modbus`,
`Crc16_usb`. -/
def table16_8005 : Table 16 := #v[
  0x0000#16, 0x8005#16, 0x800F#16, 0x000A#16, 0x801B#16, 0x001E#16, 0x0014#16, 0x8011#16, 0x8033#16, 0x0036#16,
  0x003C#16, 0x8039#16, 0x0028#16, 0x802D#16, 0x8027#16, 0x0022#16, 0x8063#16, 0x0066#16, 0x006C#16, 0x8069#16,
  0x0078#16, 0x807D#16, 0x8077#16, 0x0072#16, 0x0050#16, 0x8055#16, 0x805F#16, 0x005A#16, 0x804B#16, 0x004E#16,
  0x0044#16, 0x8041#16, 0x80C3#16, 0x00C6#16, 0x00CC#16, 0x80C9#16, 0x00D8#16, 0x80DD#16, 0x80D7#16, 0x00D2#16,
  0x00F0#16, 0x80F5#16, 0x80FF#16, 0x00FA#16, 0x80EB#16, 0x00EE#16, 0x00E4#16, 0x80E1#16, 0x00A0#16, 0x80A5#16,
  0x80AF#16, 0x00AA#16, 0x80BB#16, 0x00BE#16, 0x00B4#16, 0x80B1#16, 0x8093#16, 0x0096#16, 0x009C#16, 0x8099#16,
  0x0088#16, 0x808D#16, 0x8087#16, 0x0082#16, 0x8183#16, 0x0186#16, 0x018C#16, 0x8189#16, 0x0198#16, 0x819D#16,
  0x8197#16, 0x0192#16, 0x01B0#16, 0x81B5#16, 0x81BF#16, 0x01BA#16, 0x81AB#16, 0x01AE#16, 0x01A4#16, 0x81A1#16,
  0x01E0#16, 0x81E5#16, 0x81EF#16, 0x01EA#16, 0x81FB#16, 0x01FE#16, 0x01F4#16, 0x81F1#16, 0x81D3#16, 0x01D6#16,
  0x01DC#16, 0x81D9#16, 0x01C8#16, 0x81CD#16, 0x81C7#16, 0x01C2#16, 0x0140#16, 0x8145#16, 0x814F#16, 0x014A#16,
  0x815B#16, 0x015E#16, 0x0154#16, 0x8151#16, 0x8173#16, 0x0176#16, 0x017C#16, 0x8179#16, 0x0168#16, 0x816D#16,
  0x8167#16, 0x0162#16, 0x8123#16, 0x0126#16, 0x012C#16, 0x8129#16, 0x0138#16, 0x813D#16, 0x8137#16, 0x0132#16,
  0x0110#16, 0x8115#16, 0x811F#16, 0x011A#16, 0x810B#16, 0x010E#16, 0x0104#16, 0x8101#16, 0x8303#16, 0x0306#16,
  0x030C#16, 0x8309#16, 0x0318#16, 0x831D#16, 0x8317#16, 0x0312#16, 0x0330#16, 0x8335#16, 0x833F#16, 0x033A#16,
  0x832B#16, 0x032E#16, 0x0324#16, 0x8321#16, 0x0360#16, 0x8365#16, 0x836F#16, 0x036A#16, 0x837B#16, 0x037E#16,
  0x0374#16, 0x8371#16, 0x8353#16, 0x0356#16, 0x035C#16, 0x8359#16, 0x0348#16, 0x834D#16, 0x8347#16, 0x0342#16,
  0x03C0#16, 0x83C5#16, 0x83CF#16, 0x03CA#16, 0x83DB#16, 0x03DE#16, 0x03D4#16, 0x83D1#16, 0x83F3#16, 0x03F6#16,
  0x03FC#16, 0x83F9#16, 0x03E8#16, 0x83ED#16, 0x83E7#16, 0x03E2#16, 0x83A3#16, 0x03A6#16, 0x03AC#16, 0x83A9#16,
  0x03B8#16, 0x83BD#16, 0x83B7#16, 0x03B2#16, 0x0390#16, 0x8395#16, 0x839F#16, 0x039A#16, 0x838B#16, 0x038E#16,
  0x0384#16, 0x8381#16, 0x0280#16, 0x8285#16, 0x828F#16, 0x028A#16, 0x829B#16, 0x029E#16, 0x0294#16, 0x8291#16,
  0x82B3#16, 0x02B6#16, 0x02BC#16, 0x82B9#16, 0x02A8#16, 0x82AD#16, 0x82A7#16, 0x02A2#16, 0x82E3#16, 0x02E6#16,
  0x02EC#16, 0x82E9#16, 0x02F8#16, 0x82FD#16, 0x82F7#16, 0x02F2#16, 0x02D0#16, 0x82D5#16, 0x82DF#16, 0x02DA#16,
  0x82CB#16, 0x02CE#16, 0x02C4#16, 0x82C1#16, 0x8243#16, 0x0246#16, 0x024C#16, 0x8249#16, 0x0258#16, 0x825D#16,
  0x8257#16, 0x0252#16, 0x0270#16, 0x8275#16, 0x827F#16, 0x027A#16, 0x826B#16, 0x026E#16, 0x0264#16, 0x8261#16,
  0x0220#16, 0x8225#16, 0x822F#16, 0x022A#16, 0x823B#16, 0x023E#16, 0x0234#16, 0x8231#16, 0x8213#16, 0x0216#16,
  0x021C#16, 0x8219#16, 0x0208#16, 0x820D#16, 0x8207#16, 0x0202#16]

/-- The table of `Crc16_t10Dif`. -/
def table16_8BB7 : Table 16 := #v[
  0x0000#16, 0x8BB7#16, 0x9CD9#16, 0x176E#16, 0xB205#16, 0x39B2#16, 0x2EDC#16, 0xA56B#16, 0xEFBD#16, 0x640A#16,
  0x7364#16, 0xF8D3#16, 0x5DB8#16, 0xD60F#16, 0xC161#16, 0x4AD6#16, 0x54CD#16, 0xDF7A#16, 0xC814#16, 0x43A3#16,
  0xE6C8#16, 0x6D7F#16, 0x7A11#16, 0xF1A6#16, 0xBB70#16, 0x30C7#16, 0x27A9#16, 0xAC1E#16, 0x0975#16, 0x82C2#16,
  0x95AC#16, 0x1E1B#16, 0xA99A#16, 0x222D#16, 0x3543#16, 0xBEF4#16, 0x1B9F#16, 0x9028#16, 0x8746#16, 0x0CF1#16,
  0x4627#16, 0xCD90#16, 0xDAFE#16, 0x5149#16, 0xF422#16, 0x7F95#16, 0x68FB#16, 0xE34C#16, 0xFD57#16, 0x76E0#16,
  0x618E#16, 0xEA39#16, 0x4F52#16, 0xC4E5#16, 0xD38B#16, 0x583C#16, 0x12EA#16, 0x995D#16, 0x8E33#16, 0x0584#16,
  0xA0EF#16, 0x2B58#16, 0x3C36#16, 0xB781#16, 0xD883#16, 0x5334#16, 0x445A#16, 0xCFED#16, 0x6A86#16, 0xE131#16,
  0xF65F#16, 0x7DE8#16, 0x373E#16, 0xBC89#16, 0xABE7#16, 0x2050#16, 0x853B#16, 0x0E8C#16, 0x19E2#16, 0x9255#16,
  0x8C4E#16, 0x07F9#16, 0x1097#16, 0x9B20#16, 0x3E4B#16, 0xB5FC#16, 0xA292#16, 0x2925#16, 0x63F3#16, 0xE844#16,
  0xFF2A#16, 0x749D#16, 0xD1F6#16, 0x5A41#16, 0x4D2F#16, 0xC698#16, 0x7119#16, 0xFAAE#16, 0xEDC0#16, 0x6677#16,
  0xC31C#16, 0x48AB#16, 0x5FC5#16, 0xD472#16, 0x9EA4#16, 0x1513#16, 0x027D#16, 0x89CA#16, 0x2CA1#16, 0xA716#16,
  0xB078#16, 0x3BCF#16, 0x25D4#16, 0xAE63#16, 0xB90D#16, 0x32BA#16, 0x97D1#16, 0x1C66#16, 0x0B08#16, 0x80BF#16,
  0xCA69#16, 0x41DE#16, 0x56B0#16, 0xDD07#16, 0x786C#16, 0xF3DB#16, 0xE4B5#16, 0x6F02#16, 0x3AB1#16, 0xB106#16,
  0xA668#16, 0x2DDF#16, 0x88B4#16, 0x0303#16, 0x146D#16, 0x9FDA#16, 0xD50C#16, 0x5EBB#16, 0x49D5#16, 0xC262#16,
  0x6709#16, 0xECBE#16, 0xFBD0#16, 0x7067#16, 0x6E7C#16, 0xE5CB#16, 0xF2A5#16, 0x7912#16, 0xDC79#16, 0x57CE#16,
  0x40A0#16, 0xCB17#16, 0x81C1#16, 0x0A76#16, 0x1D18#16, 0x96AF#16, 0x33C4#16, 0xB873#16, 0xAF1D#16, 0x24AA#16,
  0x932B#16, 0x189C#16, 0x0FF2#16, 0x8445#16, 0x212E#16, 0xAA99#16, 0xBDF7#16, 0x3640#16, 0x7C96#16, 0xF721#16,
  0xE04F#16, 0x6BF8#16, 0xCE93#16, 0x4524#16, 0x524A#16, 0xD9FD#16, 0xC7E6#16, 0x4C51#16, 0x5B3F#16, 0xD088#16,
  0x75E3#16, 0xFE54#16, 0xE93A#16, 0x628D#16, 0x285B#16, 0xA3EC#16, 0xB482#16, 0x3F35#16, 0x9A5E#16, 0x11E9#16,
  0x0687#16, 0x8D30#16, 0xE232#16, 0x6985#16, 0x7EEB#16, 0xF55C#16, 0x5037#16, 0xDB80#16, 0xCCEE#16, 0x4759#16,
  0x0D8F#16, 0x8638#16, 0x9156#16, 0x1AE1#16, 0xBF8A#16, 0x343D#16, 0x2353#16, 0xA8E4#16, 0xB6FF#16, 0x3D48#16,
  0x2A26#16, 0xA191#16, 0x04FA#16, 0x8F4D#16, 0x9823#16, 0x1394#16, 0x5942#16, 0xD2F5#16, 0xC59B#16, 0x4E2C#16,
  0xEB47#16, 0x60F0#16, 0x779E#16, 0xFC29#16, 0x4BA8#16, 0xC01F#16, 0xD771#16, 0x5CC6#16, 0xF9AD#16, 0x721A#16,
  0x6574#16, 0xEEC3#16, 0xA415#16, 0x2FA2#16, 0x38CC#16, 0xB37B#16, 0x1610#16, 0x9DA7#16, 0x8AC9#16, 0x017E#16,
  0x1F65#16, 0x94D2#16, 0x83BC#16, 0x080B#16, 0xAD60#16, 0x26D7#16, 0x31B9#16, 0xBA0E#16, 0xF0D8#16, 0x7B6F#16,
  0x6C01#16, 0xE7B6#16, 0x42DD#16, 0xC96A#16, 0xDE04#16, 0x55B3#16]

/-- The table of `Crc16_teledisk`. -/
def table16_A097 : Table 16 := #v[
  0x0000#16, 0xA097#16, 0xE1B9#16, 0x412E#16, 0x63E5#16, 0xC372#16, 0x825C#16, 0x22CB#16, 0xC7CA#16, 0x675D#16,
  0x2673#16, 0x86E4#16, 0xA42F#16, 0x04B8#16, 0x4596#16, 0xE501#16, 0x2F03#16, 0x8F94#16, 0xCEBA#16, 0x6E2D#16,
  0x4CE6#16, 0xEC71#16, 0xAD5F#16, 0x0DC8#16, 0xE8C9#16, 0x485E#16, 0x0970#16, 0xA9E7#16, 0x8B2C#16, 0x2BBB#16,
  0x6A95#16, 0xCA02#16, 0x5E06#16, 0xFE91#16, 0xBFBF#16, 0x1F28#16, 0x3DE3#16, 0x9D74#16, 0xDC5A#16, 0x7CCD#16,
  0x99CC#16, 0x395B#16, 0x7875#16, 0xD8E2#16, 0xFA29#16, 0x5ABE#16, 0x1B90#16, 0xBB07#16, 0x7105#16, 0xD192#16,
  0x90BC#16, 0x302B#16, 0x12E0#16, 0xB277#16, 0xF359#16, 0x53CE#16, 0xB6CF#16, 0x1658#16, 0x5776#16, 0xF7E1#16,
  0xD52A#16, 0x75BD#16, 0x3493#16, 0x9404#16, 0xBC0C#16, 0x1C9B#16, 0x5DB5#16, 0xFD22#16, 0xDFE9#16, 0x7F7E#16,
  0x3E50#16, 0x9EC7#16, 0x7BC6#16, 0xDB51#16, 0x9A7F#16, 0x3AE8#16, 0x1823#16, 0xB8B4#16, 0xF99A#16, 0x590D#16,
  0x930F#16, 0x3398#16, 0x72B6#16, 0xD221#16, 0xF0EA#16, 0x507D#16, 0x1153#16, 0xB1C4#16, 0x54C5#16, 0xF452#16,
  0xB57C#16, 0x15EB#16, 0x3720#16, 0x97B7#16, 0xD699#16, 0x760E#16, 0xE20A#16, 0x429D#16, 0x03B3#16, 0xA324#16,
  0x81EF#16, 0x2178#16, 0x6056#16, 0xC0C1#16, 0x25C0#16, 0x8557#16, 0xC479#16, 0x64EE#16, 0x4625#16, 0xE6B2#16,
  0xA79C#16, 0x070B#16, 0xCD09#16, 0x6D9E#16, 0x2CB0#16, 0x8C27#16, 0xAEEC#16, 0x0E7B#16, 0x4F55#16, 0xEFC2#16,
  0x0AC3#16, 0xAA54#16, 0xEB7A#16, 0x4BED#16, 0x6926#16, 0xC9B1#16, 0x889F#16, 0x2808#16, 0xD88F#16, 0x7818#16,
  0x3936#16, 0x99A1#16, 0xBB6A#16, 0x1BFD#16, 0x5AD3#16, 0xFA44#16, 0x1F45#16, 0xBFD2#16, 0xFEFC#16, 0x5E6B#16,
  0x7CA0#16, 0xDC37#16, 0x9D19#16, 0x3D8E#16, 0xF78C#16, 0x571B#16, 0x1635#16, 0xB6A2#16, 0x9469#16, 0x34FE#16,
  0x75D0#16, 0xD547#16, 0x3046#16, 0x90D1#16, 0xD1FF#16, 0x7168#16, 0x53A3#16, 0xF334#16, 0xB21A#16, 0x128D#16,
  0x8689#16, 0x261E#16, 0x6730#16, 0xC7A7#16, 0xE56C#16, 0x45FB#16, 0x04D5#16, 0xA442#16, 0x4143#16, 0xE1D4#16,
  0xA0FA#16, 0x006D#16, 0x22A6#16, 0x8231#16, 0xC31F#16, 0x6388#16, 0xA98A#16, 0x091D#16, 0x4833#16, 0xE8A4#16,
  0xCA6F#16, 0x6AF8#16, 0x2BD6#16, 0x8B41#16, 0x6E40#16, 0xCED7#16, 0x8FF9#16, 0x2F6E#16, 0x0DA5#16, 0xAD32#16,
  0xEC1C#16, 0x4C8B#16, 0x6483#16, 0xC414#16, 0x853A#16, 0x25AD#16, 0x0766#16, 0xA7F1#16, 0xE6DF#16, 0x4648#16,
  0xA349#16, 0x03DE#16, 0x42F0#16, 0xE267#16, 0xC0AC#16, 0x603B#16, 0x2115#16, 0x8182#16, 0x4B80#16, 0xEB17#16,
  0xAA39#16, 0x0AAE#16, 0x2865#16, 0x88F2#16, 0xC9DC#16, 0x694B#16, 0x8C4A#16, 0x2CDD#16, 0x6DF3#16, 0xCD64#16,
  0xEFAF#16, 0x4F38#16, 0x0E16#16, 0xAE81#16, 0x3A85#16, 0x9A12#16, 0xDB3C#16, 0x7BAB#16, 0x5960#16, 0xF9F7#16,
  0xB8D9#16, 0x184E#16, 0xFD4F#16, 0x5DD8#16, 0x1CF6#16, 0xBC61#16, 0x9EAA#16, 0x3E3D#16, 0x7F13#16, 0xDF84#16,
  0x1586#16, 0xB511#16, 0xF43F#16, 0x54A8#16, 0x7663#16, 0xD6F4#16, 0x97DA#16, 0x374D#16, 0xD24C#16, 0x72DB#16,
  0x33F5#16, 0x9362#16, 0xB1A9#16, 0x113E#16, 0x5010#16, 0xF087#16]

/-- The table of `Crc16_cdma2000`. -/
def table16_C867 : Table 16 := #v[
  0x0000#16, 0xC867#16, 0x58A9#16, 0x90CE#16, 0xB152#16, 0x7935#16, 0xE9FB#16, 0x219C#16, 0xAAC3#16, 0x62A4#16,
  0xF26A#16, 0x3A0D#16, 0x1B91#16, 0xD3F6#16, 0x4338#16, 0x8B5F#16, 0x9DE1#16, 0x5586#16, 0xC548#16, 0x0D2F#16,
  0x2CB3#16, 0xE4D4#16, 0x741A#16, 0xBC7D#16, 0x3722#16, 0xFF45#16, 0x6F8B#16, 0xA7EC#16, 0x8670#16, 0x4E17#16,
  0xDED9#16, 0x16BE#16, 0xF3A5#16, 0x3BC2#16, 0xAB0C#16, 0x636B#16, 0x42F7#16, 0x8A90#16, 0x1A5E#16, 0xD239#16,
  0x5966#16, 0x9101#16, 0x01CF#16, 0xC9A8#16, 0xE834#16, 0x2053#16, 0xB09D#16, 0x78FA#16, 0x6E44#16, 0xA623#16,
  0x36ED#16, 0xFE8A#16, 0xDF16#16, 0x1771#16, 0x87BF#16, 0x4FD8#16, 0xC487#16, 0x0CE0#16, 0x9C2E#16, 0x5449#16,
  0x75D5#16, 0xBDB2#16, 0x2D7C#16, 0xE51B#16, 0x2F2D#16, 0xE74A#16, 0x7784#16, 0xBFE3#16, 0x9E7F#16, 0x5618#16,
  0xC6D6#16, 0x0EB1#16, 0x85EE#16, 0x4D89#16, 0xDD47#16, 0x1520#16, 0x34BC#16, 0xFCDB#16, 0x6C15#16, 0xA472#16,
  0xB2CC#16, 0x7AAB#16, 0xEA65#16, 0x2202#16, 0x039E#16, 0xCBF9#16, 0x5B37#16, 0x9350#16, 0x180F#16, 0xD068#16,
  0x40A6#16, 0x88C1#16, 0xA95D#16, 0x613A#16, 0xF1F4#16, 0x3993#16, 0xDC88#16, 0x14EF#16, 0x8421#16, 0x4C46#16,
  0x6DDA#16, 0xA5BD#16, 0x3573#16, 0xFD14#16, 0x764B#16, 0xBE2C#16, 0x2EE2#16, 0xE685#16, 0xC719#16, 0x0F7E#16,
  0x9FB0#16, 0x57D7#16, 0x4169#16, 0x890E#16, 0x19C0#16, 0xD1A7#16, 0xF03B#16, 0x385C#16, 0xA892#16, 0x60F5#16,
  0xEBAA#16, 0x23CD#16, 0xB303#16, 0x7B64#16, 0x5AF8#16, 0x929F#16, 0x0251#16, 0xCA36#16, 0x5E5A#16, 0x963D#16,
  0x06F3#16, 0xCE94#16, 0xEF08#16, 0x276F#16, 0xB7A1#16, 0x7FC6#16, 0xF499#16, 0x3CFE#16, 0xAC30#16, 0x6457#16,
  0x45CB#16, 0x8DAC#16, 0x1D62#16, 0xD505#16, 0xC3BB#16, 0x0BDC#16, 0x9B12#16, 0x5375#16, 0x72E9#16, 0xBA8E#16,
  0x2A40#16, 0xE227#16, 0x6978#16, 0xA11F#16, 0x31D1#16, 0xF9B6#16, 0xD82A#16, 0x104D#16, 0x8083#16, 0x48E4#16,
  0xADFF#16, 0x6598#16, 0xF556#16, 0x3D31#16, 0x1CAD#16, 0xD4CA#16, 0x4404#16, 0x8C63#16, 0x073C#16, 0xCF5B#16,
  0x5F95#16, 0x97F2#16, 0xB66E#16, 0x7E09#16, 0xEEC7#16, 0x26A0#16, 0x301E#16, 0xF879#16, 0x68B7#16, 0xA0D0#16,
  0x814C#16, 0x492B#16, 0xD9E5#16, 0x1182#16, 0x9ADD#16, 0x52BA#16, 0xC274#16, 0x0A13#16, 0x2B8F#16, 0xE3E8#16,
  0x7326#16, 0xBB41#16, 0x7177#16, 0xB910#16, 0x29DE#16, 0xE1B9#16, 0xC025#16, 0x0842#16, 0x988C#16, 0x50EB#16,
  0xDBB4#16, 0x13D3#16, 0x831D#16, 0x4B7A#16, 0x6AE6#16, 0xA281#16, 0x324F#16, 0xFA28#16, 0xEC96#16, 0x24F1#16,
  0xB43F#16, 0x7C58#16, 0x5DC4#16, 0x95A3#16, 0x056D#16, 0xCD0A#16, 0x4655#16, 0x8E32#16, 0x1EFC#16, 0xD69B#16,
  0xF707#16, 0x3F60#16, 0xAFAE#16, 0x67C9#16, 0x82D2#16, 0x4AB5#16, 0xDA7B#16, 0x121C#16, 0x3380#16, 0xFBE7#16,
  0x6B29#16, 0xA34E#16, 0x2811#16, 0xE076#16, 0x70B8#16, 0xB8DF#16, 0x9943#16, 0x5124#16, 0xC1EA#16, 0x098D#16,
  0x1F33#16, 0xD754#16, 0x479A#16, 0x8FFD#16, 0xAE61#16, 0x6606#16, 0xF6C8#16, 0x3EAF#16, 0xB5F0#16, 0x7D97#16,
  0xED59#16, 0x253E#16, 0x04A2#16, 0xCCC5#16, 0x5C0B#16, 0x946C#16]

/-! ## CRC-32

Five polynomials for nine functions. -/

/-- The table of `Crc32_xfer`. -/
def table32_000000AF : Table 32 := #v[
  0x00000000#32, 0x000000AF#32, 0x0000015E#32, 0x000001F1#32, 0x000002BC#32, 0x00000213#32, 0x000003E2#32,
  0x0000034D#32, 0x00000578#32, 0x000005D7#32, 0x00000426#32, 0x00000489#32, 0x000007C4#32, 0x0000076B#32,
  0x0000069A#32, 0x00000635#32, 0x00000AF0#32, 0x00000A5F#32, 0x00000BAE#32, 0x00000B01#32, 0x0000084C#32,
  0x000008E3#32, 0x00000912#32, 0x000009BD#32, 0x00000F88#32, 0x00000F27#32, 0x00000ED6#32, 0x00000E79#32,
  0x00000D34#32, 0x00000D9B#32, 0x00000C6A#32, 0x00000CC5#32, 0x000015E0#32, 0x0000154F#32, 0x000014BE#32,
  0x00001411#32, 0x0000175C#32, 0x000017F3#32, 0x00001602#32, 0x000016AD#32, 0x00001098#32, 0x00001037#32,
  0x000011C6#32, 0x00001169#32, 0x00001224#32, 0x0000128B#32, 0x0000137A#32, 0x000013D5#32, 0x00001F10#32,
  0x00001FBF#32, 0x00001E4E#32, 0x00001EE1#32, 0x00001DAC#32, 0x00001D03#32, 0x00001CF2#32, 0x00001C5D#32,
  0x00001A68#32, 0x00001AC7#32, 0x00001B36#32, 0x00001B99#32, 0x000018D4#32, 0x0000187B#32, 0x0000198A#32,
  0x00001925#32, 0x00002BC0#32, 0x00002B6F#32, 0x00002A9E#32, 0x00002A31#32, 0x0000297C#32, 0x000029D3#32,
  0x00002822#32, 0x0000288D#32, 0x00002EB8#32, 0x00002E17#32, 0x00002FE6#32, 0x00002F49#32, 0x00002C04#32,
  0x00002CAB#32, 0x00002D5A#32, 0x00002DF5#32, 0x00002130#32, 0x0000219F#32, 0x0000206E#32, 0x000020C1#32,
  0x0000238C#32, 0x00002323#32, 0x000022D2#32, 0x0000227D#32, 0x00002448#32, 0x000024E7#32, 0x00002516#32,
  0x000025B9#32, 0x000026F4#32, 0x0000265B#32, 0x000027AA#32, 0x00002705#32, 0x00003E20#32, 0x00003E8F#32,
  0x00003F7E#32, 0x00003FD1#32, 0x00003C9C#32, 0x00003C33#32, 0x00003DC2#32, 0x00003D6D#32, 0x00003B58#32,
  0x00003BF7#32, 0x00003A06#32, 0x00003AA9#32, 0x000039E4#32, 0x0000394B#32, 0x000038BA#32, 0x00003815#32,
  0x000034D0#32, 0x0000347F#32, 0x0000358E#32, 0x00003521#32, 0x0000366C#32, 0x000036C3#32, 0x00003732#32,
  0x0000379D#32, 0x000031A8#32, 0x00003107#32, 0x000030F6#32, 0x00003059#32, 0x00003314#32, 0x000033BB#32,
  0x0000324A#32, 0x000032E5#32, 0x00005780#32, 0x0000572F#32, 0x000056DE#32, 0x00005671#32, 0x0000553C#32,
  0x00005593#32, 0x00005462#32, 0x000054CD#32, 0x000052F8#32, 0x00005257#32, 0x000053A6#32, 0x00005309#32,
  0x00005044#32, 0x000050EB#32, 0x0000511A#32, 0x000051B5#32, 0x00005D70#32, 0x00005DDF#32, 0x00005C2E#32,
  0x00005C81#32, 0x00005FCC#32, 0x00005F63#32, 0x00005E92#32, 0x00005E3D#32, 0x00005808#32, 0x000058A7#32,
  0x00005956#32, 0x000059F9#32, 0x00005AB4#32, 0x00005A1B#32, 0x00005BEA#32, 0x00005B45#32, 0x00004260#32,
  0x000042CF#32, 0x0000433E#32, 0x00004391#32, 0x000040DC#32, 0x00004073#32, 0x00004182#32, 0x0000412D#32,
  0x00004718#32, 0x000047B7#32, 0x00004646#32, 0x000046E9#32, 0x000045A4#32, 0x0000450B#32, 0x000044FA#32,
  0x00004455#32, 0x00004890#32, 0x0000483F#32, 0x000049CE#32, 0x00004961#32, 0x00004A2C#32, 0x00004A83#32,
  0x00004B72#32, 0x00004BDD#32, 0x00004DE8#32, 0x00004D47#32, 0x00004CB6#32, 0x00004C19#32, 0x00004F54#32,
  0x00004FFB#32, 0x00004E0A#32, 0x00004EA5#32, 0x00007C40#32, 0x00007CEF#32, 0x00007D1E#32, 0x00007DB1#32,
  0x00007EFC#32, 0x00007E53#32, 0x00007FA2#32, 0x00007F0D#32, 0x00007938#32, 0x00007997#32, 0x00007866#32,
  0x000078C9#32, 0x00007B84#32, 0x00007B2B#32, 0x00007ADA#32, 0x00007A75#32, 0x000076B0#32, 0x0000761F#32,
  0x000077EE#32, 0x00007741#32, 0x0000740C#32, 0x000074A3#32, 0x00007552#32, 0x000075FD#32, 0x000073C8#32,
  0x00007367#32, 0x00007296#32, 0x00007239#32, 0x00007174#32, 0x000071DB#32, 0x0000702A#32, 0x00007085#32,
  0x000069A0#32, 0x0000690F#32, 0x000068FE#32, 0x00006851#32, 0x00006B1C#32, 0x00006BB3#32, 0x00006A42#32,
  0x00006AED#32, 0x00006CD8#32, 0x00006C77#32, 0x00006D86#32, 0x00006D29#32, 0x00006E64#32, 0x00006ECB#32,
  0x00006F3A#32, 0x00006F95#32, 0x00006350#32, 0x000063FF#32, 0x0000620E#32, 0x000062A1#32, 0x000061EC#32,
  0x00006143#32, 0x000060B2#32, 0x0000601D#32, 0x00006628#32, 0x00006687#32, 0x00006776#32, 0x000067D9#32,
  0x00006494#32, 0x0000643B#32, 0x000065CA#32, 0x00006565#32]

/-- The table of `Crc32`, `Crc32_bzip2`, `Crc32_jamcrc`, `Crc32_mpeg2`, `Crc32_posix`. -/
def table32_04C11DB7 : Table 32 := #v[
  0x00000000#32, 0x04C11DB7#32, 0x09823B6E#32, 0x0D4326D9#32, 0x130476DC#32, 0x17C56B6B#32, 0x1A864DB2#32,
  0x1E475005#32, 0x2608EDB8#32, 0x22C9F00F#32, 0x2F8AD6D6#32, 0x2B4BCB61#32, 0x350C9B64#32, 0x31CD86D3#32,
  0x3C8EA00A#32, 0x384FBDBD#32, 0x4C11DB70#32, 0x48D0C6C7#32, 0x4593E01E#32, 0x4152FDA9#32, 0x5F15ADAC#32,
  0x5BD4B01B#32, 0x569796C2#32, 0x52568B75#32, 0x6A1936C8#32, 0x6ED82B7F#32, 0x639B0DA6#32, 0x675A1011#32,
  0x791D4014#32, 0x7DDC5DA3#32, 0x709F7B7A#32, 0x745E66CD#32, 0x9823B6E0#32, 0x9CE2AB57#32, 0x91A18D8E#32,
  0x95609039#32, 0x8B27C03C#32, 0x8FE6DD8B#32, 0x82A5FB52#32, 0x8664E6E5#32, 0xBE2B5B58#32, 0xBAEA46EF#32,
  0xB7A96036#32, 0xB3687D81#32, 0xAD2F2D84#32, 0xA9EE3033#32, 0xA4AD16EA#32, 0xA06C0B5D#32, 0xD4326D90#32,
  0xD0F37027#32, 0xDDB056FE#32, 0xD9714B49#32, 0xC7361B4C#32, 0xC3F706FB#32, 0xCEB42022#32, 0xCA753D95#32,
  0xF23A8028#32, 0xF6FB9D9F#32, 0xFBB8BB46#32, 0xFF79A6F1#32, 0xE13EF6F4#32, 0xE5FFEB43#32, 0xE8BCCD9A#32,
  0xEC7DD02D#32, 0x34867077#32, 0x30476DC0#32, 0x3D044B19#32, 0x39C556AE#32, 0x278206AB#32, 0x23431B1C#32,
  0x2E003DC5#32, 0x2AC12072#32, 0x128E9DCF#32, 0x164F8078#32, 0x1B0CA6A1#32, 0x1FCDBB16#32, 0x018AEB13#32,
  0x054BF6A4#32, 0x0808D07D#32, 0x0CC9CDCA#32, 0x7897AB07#32, 0x7C56B6B0#32, 0x71159069#32, 0x75D48DDE#32,
  0x6B93DDDB#32, 0x6F52C06C#32, 0x6211E6B5#32, 0x66D0FB02#32, 0x5E9F46BF#32, 0x5A5E5B08#32, 0x571D7DD1#32,
  0x53DC6066#32, 0x4D9B3063#32, 0x495A2DD4#32, 0x44190B0D#32, 0x40D816BA#32, 0xACA5C697#32, 0xA864DB20#32,
  0xA527FDF9#32, 0xA1E6E04E#32, 0xBFA1B04B#32, 0xBB60ADFC#32, 0xB6238B25#32, 0xB2E29692#32, 0x8AAD2B2F#32,
  0x8E6C3698#32, 0x832F1041#32, 0x87EE0DF6#32, 0x99A95DF3#32, 0x9D684044#32, 0x902B669D#32, 0x94EA7B2A#32,
  0xE0B41DE7#32, 0xE4750050#32, 0xE9362689#32, 0xEDF73B3E#32, 0xF3B06B3B#32, 0xF771768C#32, 0xFA325055#32,
  0xFEF34DE2#32, 0xC6BCF05F#32, 0xC27DEDE8#32, 0xCF3ECB31#32, 0xCBFFD686#32, 0xD5B88683#32, 0xD1799B34#32,
  0xDC3ABDED#32, 0xD8FBA05A#32, 0x690CE0EE#32, 0x6DCDFD59#32, 0x608EDB80#32, 0x644FC637#32, 0x7A089632#32,
  0x7EC98B85#32, 0x738AAD5C#32, 0x774BB0EB#32, 0x4F040D56#32, 0x4BC510E1#32, 0x46863638#32, 0x42472B8F#32,
  0x5C007B8A#32, 0x58C1663D#32, 0x558240E4#32, 0x51435D53#32, 0x251D3B9E#32, 0x21DC2629#32, 0x2C9F00F0#32,
  0x285E1D47#32, 0x36194D42#32, 0x32D850F5#32, 0x3F9B762C#32, 0x3B5A6B9B#32, 0x0315D626#32, 0x07D4CB91#32,
  0x0A97ED48#32, 0x0E56F0FF#32, 0x1011A0FA#32, 0x14D0BD4D#32, 0x19939B94#32, 0x1D528623#32, 0xF12F560E#32,
  0xF5EE4BB9#32, 0xF8AD6D60#32, 0xFC6C70D7#32, 0xE22B20D2#32, 0xE6EA3D65#32, 0xEBA91BBC#32, 0xEF68060B#32,
  0xD727BBB6#32, 0xD3E6A601#32, 0xDEA580D8#32, 0xDA649D6F#32, 0xC423CD6A#32, 0xC0E2D0DD#32, 0xCDA1F604#32,
  0xC960EBB3#32, 0xBD3E8D7E#32, 0xB9FF90C9#32, 0xB4BCB610#32, 0xB07DABA7#32, 0xAE3AFBA2#32, 0xAAFBE615#32,
  0xA7B8C0CC#32, 0xA379DD7B#32, 0x9B3660C6#32, 0x9FF77D71#32, 0x92B45BA8#32, 0x9675461F#32, 0x8832161A#32,
  0x8CF30BAD#32, 0x81B02D74#32, 0x857130C3#32, 0x5D8A9099#32, 0x594B8D2E#32, 0x5408ABF7#32, 0x50C9B640#32,
  0x4E8EE645#32, 0x4A4FFBF2#32, 0x470CDD2B#32, 0x43CDC09C#32, 0x7B827D21#32, 0x7F436096#32, 0x7200464F#32,
  0x76C15BF8#32, 0x68860BFD#32, 0x6C47164A#32, 0x61043093#32, 0x65C52D24#32, 0x119B4BE9#32, 0x155A565E#32,
  0x18197087#32, 0x1CD86D30#32, 0x029F3D35#32, 0x065E2082#32, 0x0B1D065B#32, 0x0FDC1BEC#32, 0x3793A651#32,
  0x3352BBE6#32, 0x3E119D3F#32, 0x3AD08088#32, 0x2497D08D#32, 0x2056CD3A#32, 0x2D15EBE3#32, 0x29D4F654#32,
  0xC5A92679#32, 0xC1683BCE#32, 0xCC2B1D17#32, 0xC8EA00A0#32, 0xD6AD50A5#32, 0xD26C4D12#32, 0xDF2F6BCB#32,
  0xDBEE767C#32, 0xE3A1CBC1#32, 0xE760D676#32, 0xEA23F0AF#32, 0xEEE2ED18#32, 0xF0A5BD1D#32, 0xF464A0AA#32,
  0xF9278673#32, 0xFDE69BC4#32, 0x89B8FD09#32, 0x8D79E0BE#32, 0x803AC667#32, 0x84FBDBD0#32, 0x9ABC8BD5#32,
  0x9E7D9662#32, 0x933EB0BB#32, 0x97FFAD0C#32, 0xAFB010B1#32, 0xAB710D06#32, 0xA6322BDF#32, 0xA2F33668#32,
  0xBCB4666D#32, 0xB8757BDA#32, 0xB5365D03#32, 0xB1F740B4#32]

/-- The table of `Crc32_c`. -/
def table32_1EDC6F41 : Table 32 := #v[
  0x00000000#32, 0x1EDC6F41#32, 0x3DB8DE82#32, 0x2364B1C3#32, 0x7B71BD04#32, 0x65ADD245#32, 0x46C96386#32,
  0x58150CC7#32, 0xF6E37A08#32, 0xE83F1549#32, 0xCB5BA48A#32, 0xD587CBCB#32, 0x8D92C70C#32, 0x934EA84D#32,
  0xB02A198E#32, 0xAEF676CF#32, 0xF31A9B51#32, 0xEDC6F410#32, 0xCEA245D3#32, 0xD07E2A92#32, 0x886B2655#32,
  0x96B74914#32, 0xB5D3F8D7#32, 0xAB0F9796#32, 0x05F9E159#32, 0x1B258E18#32, 0x38413FDB#32, 0x269D509A#32,
  0x7E885C5D#32, 0x6054331C#32, 0x433082DF#32, 0x5DECED9E#32, 0xF8E959E3#32, 0xE63536A2#32, 0xC5518761#32,
  0xDB8DE820#32, 0x8398E4E7#32, 0x9D448BA6#32, 0xBE203A65#32, 0xA0FC5524#32, 0x0E0A23EB#32, 0x10D64CAA#32,
  0x33B2FD69#32, 0x2D6E9228#32, 0x757B9EEF#32, 0x6BA7F1AE#32, 0x48C3406D#32, 0x561F2F2C#32, 0x0BF3C2B2#32,
  0x152FADF3#32, 0x364B1C30#32, 0x28977371#32, 0x70827FB6#32, 0x6E5E10F7#32, 0x4D3AA134#32, 0x53E6CE75#32,
  0xFD10B8BA#32, 0xE3CCD7FB#32, 0xC0A86638#32, 0xDE740979#32, 0x866105BE#32, 0x98BD6AFF#32, 0xBBD9DB3C#32,
  0xA505B47D#32, 0xEF0EDC87#32, 0xF1D2B3C6#32, 0xD2B60205#32, 0xCC6A6D44#32, 0x947F6183#32, 0x8AA30EC2#32,
  0xA9C7BF01#32, 0xB71BD040#32, 0x19EDA68F#32, 0x0731C9CE#32, 0x2455780D#32, 0x3A89174C#32, 0x629C1B8B#32,
  0x7C4074CA#32, 0x5F24C509#32, 0x41F8AA48#32, 0x1C1447D6#32, 0x02C82897#32, 0x21AC9954#32, 0x3F70F615#32,
  0x6765FAD2#32, 0x79B99593#32, 0x5ADD2450#32, 0x44014B11#32, 0xEAF73DDE#32, 0xF42B529F#32, 0xD74FE35C#32,
  0xC9938C1D#32, 0x918680DA#32, 0x8F5AEF9B#32, 0xAC3E5E58#32, 0xB2E23119#32, 0x17E78564#32, 0x093BEA25#32,
  0x2A5F5BE6#32, 0x348334A7#32, 0x6C963860#32, 0x724A5721#32, 0x512EE6E2#32, 0x4FF289A3#32, 0xE104FF6C#32,
  0xFFD8902D#32, 0xDCBC21EE#32, 0xC2604EAF#32, 0x9A754268#32, 0x84A92D29#32, 0xA7CD9CEA#32, 0xB911F3AB#32,
  0xE4FD1E35#32, 0xFA217174#32, 0xD945C0B7#32, 0xC799AFF6#32, 0x9F8CA331#32, 0x8150CC70#32, 0xA2347DB3#32,
  0xBCE812F2#32, 0x121E643D#32, 0x0CC20B7C#32, 0x2FA6BABF#32, 0x317AD5FE#32, 0x696FD939#32, 0x77B3B678#32,
  0x54D707BB#32, 0x4A0B68FA#32, 0xC0C1D64F#32, 0xDE1DB90E#32, 0xFD7908CD#32, 0xE3A5678C#32, 0xBBB06B4B#32,
  0xA56C040A#32, 0x8608B5C9#32, 0x98D4DA88#32, 0x3622AC47#32, 0x28FEC306#32, 0x0B9A72C5#32, 0x15461D84#32,
  0x4D531143#32, 0x538F7E02#32, 0x70EBCFC1#32, 0x6E37A080#32, 0x33DB4D1E#32, 0x2D07225F#32, 0x0E63939C#32,
  0x10BFFCDD#32, 0x48AAF01A#32, 0x56769F5B#32, 0x75122E98#32, 0x6BCE41D9#32, 0xC5383716#32, 0xDBE45857#32,
  0xF880E994#32, 0xE65C86D5#32, 0xBE498A12#32, 0xA095E553#32, 0x83F15490#32, 0x9D2D3BD1#32, 0x38288FAC#32,
  0x26F4E0ED#32, 0x0590512E#32, 0x1B4C3E6F#32, 0x435932A8#32, 0x5D855DE9#32, 0x7EE1EC2A#32, 0x603D836B#32,
  0xCECBF5A4#32, 0xD0179AE5#32, 0xF3732B26#32, 0xEDAF4467#32, 0xB5BA48A0#32, 0xAB6627E1#32, 0x88029622#32,
  0x96DEF963#32, 0xCB3214FD#32, 0xD5EE7BBC#32, 0xF68ACA7F#32, 0xE856A53E#32, 0xB043A9F9#32, 0xAE9FC6B8#32,
  0x8DFB777B#32, 0x9327183A#32, 0x3DD16EF5#32, 0x230D01B4#32, 0x0069B077#32, 0x1EB5DF36#32, 0x46A0D3F1#32,
  0x587CBCB0#32, 0x7B180D73#32, 0x65C46232#32, 0x2FCF0AC8#32, 0x31136589#32, 0x1277D44A#32, 0x0CABBB0B#32,
  0x54BEB7CC#32, 0x4A62D88D#32, 0x6906694E#32, 0x77DA060F#32, 0xD92C70C0#32, 0xC7F01F81#32, 0xE494AE42#32,
  0xFA48C103#32, 0xA25DCDC4#32, 0xBC81A285#32, 0x9FE51346#32, 0x81397C07#32, 0xDCD59199#32, 0xC209FED8#32,
  0xE16D4F1B#32, 0xFFB1205A#32, 0xA7A42C9D#32, 0xB97843DC#32, 0x9A1CF21F#32, 0x84C09D5E#32, 0x2A36EB91#32,
  0x34EA84D0#32, 0x178E3513#32, 0x09525A52#32, 0x51475695#32, 0x4F9B39D4#32, 0x6CFF8817#32, 0x7223E756#32,
  0xD726532B#32, 0xC9FA3C6A#32, 0xEA9E8DA9#32, 0xF442E2E8#32, 0xAC57EE2F#32, 0xB28B816E#32, 0x91EF30AD#32,
  0x8F335FEC#32, 0x21C52923#32, 0x3F194662#32, 0x1C7DF7A1#32, 0x02A198E0#32, 0x5AB49427#32, 0x4468FB66#32,
  0x670C4AA5#32, 0x79D025E4#32, 0x243CC87A#32, 0x3AE0A73B#32, 0x198416F8#32, 0x075879B9#32, 0x5F4D757E#32,
  0x41911A3F#32, 0x62F5ABFC#32, 0x7C29C4BD#32, 0xD2DFB272#32, 0xCC03DD33#32, 0xEF676CF0#32, 0xF1BB03B1#32,
  0xA9AE0F76#32, 0xB7726037#32, 0x9416D1F4#32, 0x8ACABEB5#32]

/-- The table of `Crc32_q`. -/
def table32_814141AB : Table 32 := #v[
  0x00000000#32, 0x814141AB#32, 0x83C3C2FD#32, 0x02828356#32, 0x86C6C451#32, 0x078785FA#32, 0x050506AC#32,
  0x84444707#32, 0x8CCCC909#32, 0x0D8D88A2#32, 0x0F0F0BF4#32, 0x8E4E4A5F#32, 0x0A0A0D58#32, 0x8B4B4CF3#32,
  0x89C9CFA5#32, 0x08888E0E#32, 0x98D8D3B9#32, 0x19999212#32, 0x1B1B1144#32, 0x9A5A50EF#32, 0x1E1E17E8#32,
  0x9F5F5643#32, 0x9DDDD515#32, 0x1C9C94BE#32, 0x14141AB0#32, 0x95555B1B#32, 0x97D7D84D#32, 0x169699E6#32,
  0x92D2DEE1#32, 0x13939F4A#32, 0x11111C1C#32, 0x90505DB7#32, 0xB0F0E6D9#32, 0x31B1A772#32, 0x33332424#32,
  0xB272658F#32, 0x36362288#32, 0xB7776323#32, 0xB5F5E075#32, 0x34B4A1DE#32, 0x3C3C2FD0#32, 0xBD7D6E7B#32,
  0xBFFFED2D#32, 0x3EBEAC86#32, 0xBAFAEB81#32, 0x3BBBAA2A#32, 0x3939297C#32, 0xB87868D7#32, 0x28283560#32,
  0xA96974CB#32, 0xABEBF79D#32, 0x2AAAB636#32, 0xAEEEF131#32, 0x2FAFB09A#32, 0x2D2D33CC#32, 0xAC6C7267#32,
  0xA4E4FC69#32, 0x25A5BDC2#32, 0x27273E94#32, 0xA6667F3F#32, 0x22223838#32, 0xA3637993#32, 0xA1E1FAC5#32,
  0x20A0BB6E#32, 0xE0A08C19#32, 0x61E1CDB2#32, 0x63634EE4#32, 0xE2220F4F#32, 0x66664848#32, 0xE72709E3#32,
  0xE5A58AB5#32, 0x64E4CB1E#32, 0x6C6C4510#32, 0xED2D04BB#32, 0xEFAF87ED#32, 0x6EEEC646#32, 0xEAAA8141#32,
  0x6BEBC0EA#32, 0x696943BC#32, 0xE8280217#32, 0x78785FA0#32, 0xF9391E0B#32, 0xFBBB9D5D#32, 0x7AFADCF6#32,
  0xFEBE9BF1#32, 0x7FFFDA5A#32, 0x7D7D590C#32, 0xFC3C18A7#32, 0xF4B496A9#32, 0x75F5D702#32, 0x77775454#32,
  0xF63615FF#32, 0x727252F8#32, 0xF3331353#32, 0xF1B19005#32, 0x70F0D1AE#32, 0x50506AC0#32, 0xD1112B6B#32,
  0xD393A83D#32, 0x52D2E996#32, 0xD696AE91#32, 0x57D7EF3A#32, 0x55556C6C#32, 0xD4142DC7#32, 0xDC9CA3C9#32,
  0x5DDDE262#32, 0x5F5F6134#32, 0xDE1E209F#32, 0x5A5A6798#32, 0xDB1B2633#32, 0xD999A565#32, 0x58D8E4CE#32,
  0xC888B979#32, 0x49C9F8D2#32, 0x4B4B7B84#32, 0xCA0A3A2F#32, 0x4E4E7D28#32, 0xCF0F3C83#32, 0xCD8DBFD5#32,
  0x4CCCFE7E#32, 0x44447070#32, 0xC50531DB#32, 0xC787B28D#32, 0x46C6F326#32, 0xC282B421#32, 0x43C3F58A#32,
  0x414176DC#32, 0xC0003777#32, 0x40005999#32, 0xC1411832#32, 0xC3C39B64#32, 0x4282DACF#32, 0xC6C69DC8#32,
  0x4787DC63#32, 0x45055F35#32, 0xC4441E9E#32, 0xCCCC9090#32, 0x4D8DD13B#32, 0x4F0F526D#32, 0xCE4E13C6#32,
  0x4A0A54C1#32, 0xCB4B156A#32, 0xC9C9963C#32, 0x4888D797#32, 0xD8D88A20#32, 0x5999CB8B#32, 0x5B1B48DD#32,
  0xDA5A0976#32, 0x5E1E4E71#32, 0xDF5F0FDA#32, 0xDDDD8C8C#32, 0x5C9CCD27#32, 0x54144329#32, 0xD5550282#32,
  0xD7D781D4#32, 0x5696C07F#32, 0xD2D28778#32, 0x5393C6D3#32, 0x51114585#32, 0xD050042E#32, 0xF0F0BF40#32,
  0x71B1FEEB#32, 0x73337DBD#32, 0xF2723C16#32, 0x76367B11#32, 0xF7773ABA#32, 0xF5F5B9EC#32, 0x74B4F847#32,
  0x7C3C7649#32, 0xFD7D37E2#32, 0xFFFFB4B4#32, 0x7EBEF51F#32, 0xFAFAB218#32, 0x7BBBF3B3#32, 0x793970E5#32,
  0xF878314E#32, 0x68286CF9#32, 0xE9692D52#32, 0xEBEBAE04#32, 0x6AAAEFAF#32, 0xEEEEA8A8#32, 0x6FAFE903#32,
  0x6D2D6A55#32, 0xEC6C2BFE#32, 0xE4E4A5F0#32, 0x65A5E45B#32, 0x6727670D#32, 0xE66626A6#32, 0x622261A1#32,
  0xE363200A#32, 0xE1E1A35C#32, 0x60A0E2F7#32, 0xA0A0D580#32, 0x21E1942B#32, 0x2363177D#32, 0xA22256D6#32,
  0x266611D1#32, 0xA727507A#32, 0xA5A5D32C#32, 0x24E49287#32, 0x2C6C1C89#32, 0xAD2D5D22#32, 0xAFAFDE74#32,
  0x2EEE9FDF#32, 0xAAAAD8D8#32, 0x2BEB9973#32, 0x29691A25#32, 0xA8285B8E#32, 0x38780639#32, 0xB9394792#32,
  0xBBBBC4C4#32, 0x3AFA856F#32, 0xBEBEC268#32, 0x3FFF83C3#32, 0x3D7D0095#32, 0xBC3C413E#32, 0xB4B4CF30#32,
  0x35F58E9B#32, 0x37770DCD#32, 0xB6364C66#32, 0x32720B61#32, 0xB3334ACA#32, 0xB1B1C99C#32, 0x30F08837#32,
  0x10503359#32, 0x911172F2#32, 0x9393F1A4#32, 0x12D2B00F#32, 0x9696F708#32, 0x17D7B6A3#32, 0x155535F5#32,
  0x9414745E#32, 0x9C9CFA50#32, 0x1DDDBBFB#32, 0x1F5F38AD#32, 0x9E1E7906#32, 0x1A5A3E01#32, 0x9B1B7FAA#32,
  0x9999FCFC#32, 0x18D8BD57#32, 0x8888E0E0#32, 0x09C9A14B#32, 0x0B4B221D#32, 0x8A0A63B6#32, 0x0E4E24B1#32,
  0x8F0F651A#32, 0x8D8DE64C#32, 0x0CCCA7E7#32, 0x044429E9#32, 0x85056842#32, 0x8787EB14#32, 0x06C6AABF#32,
  0x8282EDB8#32, 0x03C3AC13#32, 0x01412F45#32, 0x80006EEE#32]

/-- The table of `Crc32_d`. -/
def table32_A833982B : Table 32 := #v[
  0x00000000#32, 0xA833982B#32, 0xF854A87D#32, 0x50673056#32, 0x589AC8D1#32, 0xF0A950FA#32, 0xA0CE60AC#32,
  0x08FDF887#32, 0xB13591A2#32, 0x19060989#32, 0x496139DF#32, 0xE152A1F4#32, 0xE9AF5973#32, 0x419CC158#32,
  0x11FBF10E#32, 0xB9C86925#32, 0xCA58BB6F#32, 0x626B2344#32, 0x320C1312#32, 0x9A3F8B39#32, 0x92C273BE#32,
  0x3AF1EB95#32, 0x6A96DBC3#32, 0xC2A543E8#32, 0x7B6D2ACD#32, 0xD35EB2E6#32, 0x833982B0#32, 0x2B0A1A9B#32,
  0x23F7E21C#32, 0x8BC47A37#32, 0xDBA34A61#32, 0x7390D24A#32, 0x3C82EEF5#32, 0x94B176DE#32, 0xC4D64688#32,
  0x6CE5DEA3#32, 0x64182624#32, 0xCC2BBE0F#32, 0x9C4C8E59#32, 0x347F1672#32, 0x8DB77F57#32, 0x2584E77C#32,
  0x75E3D72A#32, 0xDDD04F01#32, 0xD52DB786#32, 0x7D1E2FAD#32, 0x2D791FFB#32, 0x854A87D0#32, 0xF6DA559A#32,
  0x5EE9CDB1#32, 0x0E8EFDE7#32, 0xA6BD65CC#32, 0xAE409D4B#32, 0x06730560#32, 0x56143536#32, 0xFE27AD1D#32,
  0x47EFC438#32, 0xEFDC5C13#32, 0xBFBB6C45#32, 0x1788F46E#32, 0x1F750CE9#32, 0xB74694C2#32, 0xE721A494#32,
  0x4F123CBF#32, 0x7905DDEA#32, 0xD13645C1#32, 0x81517597#32, 0x2962EDBC#32, 0x219F153B#32, 0x89AC8D10#32,
  0xD9CBBD46#32, 0x71F8256D#32, 0xC8304C48#32, 0x6003D463#32, 0x3064E435#32, 0x98577C1E#32, 0x90AA8499#32,
  0x38991CB2#32, 0x68FE2CE4#32, 0xC0CDB4CF#32, 0xB35D6685#32, 0x1B6EFEAE#32, 0x4B09CEF8#32, 0xE33A56D3#32,
  0xEBC7AE54#32, 0x43F4367F#32, 0x13930629#32, 0xBBA09E02#32, 0x0268F727#32, 0xAA5B6F0C#32, 0xFA3C5F5A#32,
  0x520FC771#32, 0x5AF23FF6#32, 0xF2C1A7DD#32, 0xA2A6978B#32, 0x0A950FA0#32, 0x4587331F#32, 0xEDB4AB34#32,
  0xBDD39B62#32, 0x15E00349#32, 0x1D1DFBCE#32, 0xB52E63E5#32, 0xE54953B3#32, 0x4D7ACB98#32, 0xF4B2A2BD#32,
  0x5C813A96#32, 0x0CE60AC0#32, 0xA4D592EB#32, 0xAC286A6C#32, 0x041BF247#32, 0x547CC211#32, 0xFC4F5A3A#32,
  0x8FDF8870#32, 0x27EC105B#32, 0x778B200D#32, 0xDFB8B826#32, 0xD74540A1#32, 0x7F76D88A#32, 0x2F11E8DC#32,
  0x872270F7#32, 0x3EEA19D2#32, 0x96D981F9#32, 0xC6BEB1AF#32, 0x6E8D2984#32, 0x6670D103#32, 0xCE434928#32,
  0x9E24797E#32, 0x3617E155#32, 0xF20BBBD4#32, 0x5A3823FF#32, 0x0A5F13A9#32, 0xA26C8B82#32, 0xAA917305#32,
  0x02A2EB2E#32, 0x52C5DB78#32, 0xFAF64353#32, 0x433E2A76#32, 0xEB0DB25D#32, 0xBB6A820B#32, 0x13591A20#32,
  0x1BA4E2A7#32, 0xB3977A8C#32, 0xE3F04ADA#32, 0x4BC3D2F1#32, 0x385300BB#32, 0x90609890#32, 0xC007A8C6#32,
  0x683430ED#32, 0x60C9C86A#32, 0xC8FA5041#32, 0x989D6017#32, 0x30AEF83C#32, 0x89669119#32, 0x21550932#32,
  0x71323964#32, 0xD901A14F#32, 0xD1FC59C8#32, 0x79CFC1E3#32, 0x29A8F1B5#32, 0x819B699E#32, 0xCE895521#32,
  0x66BACD0A#32, 0x36DDFD5C#32, 0x9EEE6577#32, 0x96139DF0#32, 0x3E2005DB#32, 0x6E47358D#32, 0xC674ADA6#32,
  0x7FBCC483#32, 0xD78F5CA8#32, 0x87E86CFE#32, 0x2FDBF4D5#32, 0x27260C52#32, 0x8F159479#32, 0xDF72A42F#32,
  0x77413C04#32, 0x04D1EE4E#32, 0xACE27665#32, 0xFC854633#32, 0x54B6DE18#32, 0x5C4B269F#32, 0xF478BEB4#32,
  0xA41F8EE2#32, 0x0C2C16C9#32, 0xB5E47FEC#32, 0x1DD7E7C7#32, 0x4DB0D791#32, 0xE5834FBA#32, 0xED7EB73D#32,
  0x454D2F16#32, 0x152A1F40#32, 0xBD19876B#32, 0x8B0E663E#32, 0x233DFE15#32, 0x735ACE43#32, 0xDB695668#32,
  0xD394AEEF#32, 0x7BA736C4#32, 0x2BC00692#32, 0x83F39EB9#32, 0x3A3BF79C#32, 0x92086FB7#32, 0xC26F5FE1#32,
  0x6A5CC7CA#32, 0x62A13F4D#32, 0xCA92A766#32, 0x9AF59730#32, 0x32C60F1B#32, 0x4156DD51#32, 0xE965457A#32,
  0xB902752C#32, 0x1131ED07#32, 0x19CC1580#32, 0xB1FF8DAB#32, 0xE198BDFD#32, 0x49AB25D6#32, 0xF0634CF3#32,
  0x5850D4D8#32, 0x0837E48E#32, 0xA0047CA5#32, 0xA8F98422#32, 0x00CA1C09#32, 0x50AD2C5F#32, 0xF89EB474#32,
  0xB78C88CB#32, 0x1FBF10E0#32, 0x4FD820B6#32, 0xE7EBB89D#32, 0xEF16401A#32, 0x4725D831#32, 0x1742E867#32,
  0xBF71704C#32, 0x06B91969#32, 0xAE8A8142#32, 0xFEEDB114#32, 0x56DE293F#32, 0x5E23D1B8#32, 0xF6104993#32,
  0xA67779C5#32, 0x0E44E1EE#32, 0x7DD433A4#32, 0xD5E7AB8F#32, 0x85809BD9#32, 0x2DB303F2#32, 0x254EFB75#32,
  0x8D7D635E#32, 0xDD1A5308#32, 0x7529CB23#32, 0xCCE1A206#32, 0x64D23A2D#32, 0x34B50A7B#32, 0x9C869250#32,
  0x947B6AD7#32, 0x3C48F2FC#32, 0x6C2FC2AA#32, 0xC41C5A81#32]

end IMUtility.Crc
