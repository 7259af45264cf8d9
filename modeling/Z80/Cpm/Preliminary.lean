/-
The built-in program.

A straight line of checks over the basic groups of instructions.  Each check stores its
letter at 8020 and jumps to the error routine when something is not as it should be; the
routine prints `ERROR in test` and the letter.  When all checks pass, the program prints
`Preliminary tests complete`.
-/

namespace Z80

namespace Cpm

/-- The bytes of the program, from its start address on. -/
def preliminary : List UInt8 :=
  List.flatten
    [
      -- 0100 jump to the start
      [0xC3, 0x46, 0x01],
      -- 0103 the error routine: prints the text and the letter of the check, then leaves
      [0x11, 0x1A, 0x01, 0x0E, 0x09, 0xCD, 0x05, 0x00, 0x3A, 0x20, 0x80, 0x5F, 0x0E, 0x02,
        0xCD, 0x05, 0x00, 0xC3, 0x00, 0x00],
      -- 0117 a subroutine for the checks to call
      [0x3E, 0x42, 0xC9],
      -- 011A ERROR in test $
      [0x45, 0x52, 0x52, 0x4F, 0x52, 0x20, 0x69, 0x6E, 0x20, 0x74, 0x65, 0x73, 0x74, 0x20,
        0x24],
      -- 0129 Preliminary tests complete, a line end, $
      [0x50, 0x72, 0x65, 0x6C, 0x69, 0x6D, 0x69, 0x6E, 0x61, 0x72, 0x79, 0x20, 0x74, 0x65,
        0x73, 0x74, 0x73, 0x20, 0x63, 0x6F, 0x6D, 0x70, 0x6C, 0x65, 0x74, 0x65, 0x0D, 0x0A,
        0x24],
      -- 0146 start: the stack goes below the top of the program area
      [0x2A, 0x06, 0x00, 0xF9],
      -- 014A check A: CP
      [0x3E, 0x41, 0x32, 0x20, 0x80, 0x3E, 0x5A, 0xFE, 0x5A, 0xC2, 0x03, 0x01, 0xFE, 0x5B,
        0xCA, 0x03, 0x01, 0xD2, 0x03, 0x01],
      -- 015E check B: PUSH/POP AF
      [0x3E, 0x42, 0x32, 0x20, 0x80, 0x21, 0x34, 0x12, 0xE5, 0xF1, 0xF5, 0xD1, 0x7A, 0xFE,
        0x12, 0xC2, 0x03, 0x01, 0x7B, 0xFE, 0x34, 0xC2, 0x03, 0x01],
      -- 0176 check C: XOR
      [0x3E, 0x43, 0x32, 0x20, 0x80, 0xAF, 0xC2, 0x03, 0x01, 0xDA, 0x03, 0x01, 0xE2, 0x03,
        0x01],
      -- 0185 check D: ADD overflow
      [0x3E, 0x44, 0x32, 0x20, 0x80, 0x3E, 0x7F, 0xC6, 0x01, 0xF2, 0x03, 0x01, 0xE2, 0x03,
        0x01, 0xDA, 0x03, 0x01, 0xFE, 0x80, 0xC2, 0x03, 0x01],
      -- 019C check E: ADD carry
      [0x3E, 0x45, 0x32, 0x20, 0x80, 0x3E, 0xFF, 0xC6, 0x01, 0xC2, 0x03, 0x01, 0xD2, 0x03,
        0x01],
      -- 01AB check F: SUB
      [0x3E, 0x46, 0x32, 0x20, 0x80, 0x3E, 0x10, 0xD6, 0x20, 0xD2, 0x03, 0x01, 0xF2, 0x03,
        0x01, 0xFE, 0xF0, 0xC2, 0x03, 0x01],
      -- 01BF check G: ADC/SBC
      [0x3E, 0x47, 0x32, 0x20, 0x80, 0x37, 0x3E, 0x10, 0xCE, 0x05, 0xFE, 0x16, 0xC2, 0x03,
        0x01, 0x37, 0x3E, 0x10, 0xDE, 0x05, 0xFE, 0x0A, 0xC2, 0x03, 0x01],
      -- 01D8 check H: INC/DEC
      [0x3E, 0x48, 0x32, 0x20, 0x80, 0x37, 0x06, 0xFF, 0x04, 0xC2, 0x03, 0x01, 0xD2, 0x03,
        0x01, 0x05, 0xCA, 0x03, 0x01, 0x78, 0xFE, 0xFF, 0xC2, 0x03, 0x01],
      -- 01F1 check I: AND/OR
      [0x3E, 0x49, 0x32, 0x20, 0x80, 0x3E, 0xF0, 0xE6, 0x3C, 0xFE, 0x30, 0xC2, 0x03, 0x01,
        0xF6, 0x0F, 0xFE, 0x3F, 0xC2, 0x03, 0x01],
      -- 0206 check J: RLCA/RRA
      [0x3E, 0x4A, 0x32, 0x20, 0x80, 0x3E, 0x81, 0x07, 0xD2, 0x03, 0x01, 0xFE, 0x03, 0xC2,
        0x03, 0x01, 0x1F, 0xD2, 0x03, 0x01, 0xFE, 0x01, 0xC2, 0x03, 0x01],
      -- 021F check K: CB shifts
      [0x3E, 0x4B, 0x32, 0x20, 0x80, 0x06, 0x80, 0xCB, 0x38, 0xCB, 0x20, 0xCB, 0x28, 0x78,
        0xFE, 0xC0, 0xC2, 0x03, 0x01],
      -- 0232 check L: BIT/SET/RES
      [0x3E, 0x4C, 0x32, 0x20, 0x80, 0x0E, 0x00, 0xCB, 0xD9, 0xCB, 0x59, 0xCA, 0x03, 0x01,
        0xCB, 0x99, 0xCB, 0x59, 0xC2, 0x03, 0x01, 0x79, 0xB7, 0xC2, 0x03, 0x01],
      -- 024C check M: 16-bit INC/ADD
      [0x3E, 0x4D, 0x32, 0x20, 0x80, 0x21, 0xFF, 0x7F, 0x23, 0x7C, 0xFE, 0x80, 0xC2, 0x03,
        0x01, 0x21, 0x00, 0x10, 0x11, 0x34, 0x02, 0x19, 0x7D, 0xFE, 0x34, 0xC2, 0x03, 0x01,
        0x7C, 0xFE, 0x12, 0xC2, 0x03, 0x01],
      -- 026E check N: SBC HL
      [0x3E, 0x4E, 0x32, 0x20, 0x80, 0xB7, 0x21, 0x34, 0x12, 0x01, 0x34, 0x12, 0xED, 0x42,
        0xC2, 0x03, 0x01],
      -- 027F check O: ADC HL
      [0x3E, 0x4F, 0x32, 0x20, 0x80, 0x37, 0x21, 0xFF, 0xFF, 0x11, 0x00, 0x00, 0xED, 0x5A,
        0xC2, 0x03, 0x01, 0xD2, 0x03, 0x01],
      -- 0293 check P: memory loads
      [0x3E, 0x50, 0x32, 0x20, 0x80, 0x21, 0x00, 0x80, 0x36, 0xA5, 0x7E, 0xFE, 0xA5, 0xC2,
        0x03, 0x01, 0x11, 0xAA, 0x55, 0xED, 0x53, 0x00, 0x80, 0x2A, 0x00, 0x80, 0x7C, 0xFE,
        0x55, 0xC2, 0x03, 0x01, 0x7D, 0xFE, 0xAA, 0xC2, 0x03, 0x01],
      -- 02B9 check Q: CALL/RET
      [0x3E, 0x51, 0x32, 0x20, 0x80, 0xAF, 0xCD, 0x17, 0x01, 0xFE, 0x42, 0xC2, 0x03, 0x01,
        0xAF, 0xC4, 0x03, 0x01, 0xCC, 0x17, 0x01, 0xFE, 0x42, 0xC2, 0x03, 0x01],
      -- 02D3 check R: DJNZ
      [0x3E, 0x52, 0x32, 0x20, 0x80, 0x06, 0x05, 0xAF, 0x3C, 0x10, 0xFD, 0xFE, 0x05, 0xC2,
        0x03, 0x01],
      -- 02E3 check S: JR
      [0x3E, 0x53, 0x32, 0x20, 0x80, 0x18, 0x03, 0xC3, 0x03, 0x01, 0xAF, 0x28, 0x03, 0xC3,
        0x03, 0x01, 0x20, 0x00],
      -- 02F5 check T: EX/EXX
      [0x3E, 0x54, 0x32, 0x20, 0x80, 0x01, 0x11, 0x11, 0xD9, 0x01, 0x22, 0x22, 0xD9, 0x78,
        0xFE, 0x11, 0xC2, 0x03, 0x01, 0x11, 0x44, 0x33, 0x21, 0x00, 0x00, 0xEB, 0x7C, 0xFE,
        0x33, 0xC2, 0x03, 0x01, 0x3E, 0x77, 0x08, 0x3E, 0x00, 0x08, 0xFE, 0x77, 0xC2, 0x03,
        0x01],
      -- 0320 check U: IX/IY
      [0x3E, 0x55, 0x32, 0x20, 0x80, 0xDD, 0x21, 0x00, 0x80, 0xDD, 0x36, 0x02, 0x99, 0xDD,
        0x7E, 0x02, 0xFE, 0x99, 0xC2, 0x03, 0x01, 0xFD, 0x21, 0x04, 0x80, 0xFD, 0x36, 0xFF,
        0x66, 0x3A, 0x03, 0x80, 0xFE, 0x66, 0xC2, 0x03, 0x01, 0xDD, 0x34, 0x02, 0xDD, 0x7E,
        0x02, 0xFE, 0x9A, 0xC2, 0x03, 0x01],
      -- 0350 check V: LDIR
      [0x3E, 0x56, 0x32, 0x20, 0x80, 0x21, 0x29, 0x01, 0x11, 0x10, 0x80, 0x01, 0x04, 0x00,
        0xED, 0xB0, 0x78, 0xB1, 0xC2, 0x03, 0x01, 0x3A, 0x13, 0x80, 0xFE, 0x6C, 0xC2, 0x03,
        0x01, 0x7B, 0xFE, 0x14, 0xC2, 0x03, 0x01],
      -- 0373 check W: CPIR
      [0x3E, 0x57, 0x32, 0x20, 0x80, 0x21, 0x29, 0x01, 0x01, 0x20, 0x00, 0x3E, 0x79, 0xED,
        0xB1, 0xC2, 0x03, 0x01, 0x7D, 0xFE, 0x34, 0xC2, 0x03, 0x01],
      -- 038B check X: DAA
      [0x3E, 0x58, 0x32, 0x20, 0x80, 0x3E, 0x15, 0xC6, 0x27, 0x27, 0xFE, 0x42, 0xC2, 0x03,
        0x01, 0xD6, 0x15, 0x27, 0xFE, 0x27, 0xC2, 0x03, 0x01],
      -- 03A2 check Y: NEG
      [0x3E, 0x59, 0x32, 0x20, 0x80, 0x3E, 0x01, 0xED, 0x44, 0xD2, 0x03, 0x01, 0xFE, 0xFF,
        0xC2, 0x03, 0x01],
      -- 03B3 check Z: RLD
      [0x3E, 0x5A, 0x32, 0x20, 0x80, 0x21, 0x00, 0x80, 0x36, 0x34, 0x3E, 0x12, 0xED, 0x6F,
        0xFE, 0x13, 0xC2, 0x03, 0x01, 0x7E, 0xFE, 0x42, 0xC2, 0x03, 0x01],
      -- 03CC check [: LD A,I
      [0x3E, 0x5B, 0x32, 0x20, 0x80, 0x3E, 0x3F, 0xED, 0x47, 0x3E, 0x00, 0xED, 0x57, 0xFE,
        0x3F, 0xC2, 0x03, 0x01],
      -- 03DE check \: IN r,(C)
      [0x3E, 0x5C, 0x32, 0x20, 0x80, 0x01, 0x10, 0x00, 0xED, 0x58, 0x7B, 0xFE, 0xFF, 0xC2,
        0x03, 0x01],
      -- 03EE check ]: PUSH/POP IX
      [0x3E, 0x5D, 0x32, 0x20, 0x80, 0xDD, 0x21, 0xEF, 0xBE, 0xDD, 0xE5, 0xC1, 0x78, 0xFE,
        0xBE, 0xC2, 0x03, 0x01, 0xDD, 0x7D, 0xFE, 0xEF, 0xC2, 0x03, 0x01],
      -- 0407 check ^: SCF/CCF
      [0x3E, 0x5E, 0x32, 0x20, 0x80, 0x37, 0x3F, 0xDA, 0x03, 0x01],
      -- 0411 the success routine: prints the text, then leaves
      [0x11, 0x29, 0x01, 0x0E, 0x09, 0xCD, 0x05, 0x00, 0xC3, 0x00, 0x00]
    ]

end Cpm

end Z80
