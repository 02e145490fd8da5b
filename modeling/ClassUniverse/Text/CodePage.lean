/-!
# Code page 437

The character set of the first personal computers: ASCII below 0x80, and above it letters, frames
and mathematical signs in the order of the table.
-/

namespace ClassUniverse.Text.CodePage

def upperHalf : Array Char :=
  ("ÇüéâäàåçêëèïîìÄÅ" ++ "ÉæÆôöòûùÿÖÜ¢£¥₧ƒ" ++ "áíóúñÑªº¿⌐¬½¼¡«»" ++ "░▒▓│┤╡╢╖╕╣║╗╝╜╛┐" ++
    "└┴┬├─┼╞╟╚╔╩╦╠═╬╧" ++ "╨╤╥╙╘╒╓╫╪┘┌█▄▌▐▀" ++ "αßΓπΣσµτΦΘΩδ∞φε∩" ++
    "≡±≥≤⌠⌡÷≈°∙·√ⁿ²■\u00A0").toList.toArray

def character (b : UInt8) : Char :=
  if b < 0x80 then Char.ofNat b.toNat else (upperHalf[b.toNat - 0x80]?).getD ' '

def decode (bytes : List UInt8) : List Char := bytes.map character

end ClassUniverse.Text.CodePage
