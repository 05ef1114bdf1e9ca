import Intel8080.Operation

/-! The opcode matrix: which operation each of the 256 codes performs. -/

namespace Intel8080

/--
The operation of every code, one row for each high digit and one column for each low digit.

The twelve codes the manual leaves blank hold what the silicon does with them.
-/
def opcodeMatrix : Vector (Vector Operation 16) 16 :=
  #v[
    #v[.nop, .lxi .bc, .stax .bc, .inx .bc, .inr .b, .dcr .b, .mvi .b, .rotate .rlc,
      .nop, .dad .bc, .ldax .bc, .dcx .bc, .inr .c, .dcr .c, .mvi .c, .rotate .rrc],
    #v[.nop, .lxi .de, .stax .de, .inx .de, .inr .d, .dcr .d, .mvi .d, .rotate .ral,
      .nop, .dad .de, .ldax .de, .dcx .de, .inr .e, .dcr .e, .mvi .e, .rotate .rar],
    #v[.nop, .lxi .hl, .shld, .inx .hl, .inr .h, .dcr .h, .mvi .h, .daa,
      .nop, .dad .hl, .lhld, .dcx .hl, .inr .l, .dcr .l, .mvi .l, .cma],
    #v[.nop, .lxi .sp, .sta, .inx .sp, .inr .m, .dcr .m, .mvi .m, .stc,
      .nop, .dad .sp, .lda, .dcx .sp, .inr .a, .dcr .a, .mvi .a, .cmc],
    #v[.mov .b .b, .mov .b .c, .mov .b .d, .mov .b .e,
      .mov .b .h, .mov .b .l, .mov .b .m, .mov .b .a,
      .mov .c .b, .mov .c .c, .mov .c .d, .mov .c .e,
      .mov .c .h, .mov .c .l, .mov .c .m, .mov .c .a],
    #v[.mov .d .b, .mov .d .c, .mov .d .d, .mov .d .e,
      .mov .d .h, .mov .d .l, .mov .d .m, .mov .d .a,
      .mov .e .b, .mov .e .c, .mov .e .d, .mov .e .e,
      .mov .e .h, .mov .e .l, .mov .e .m, .mov .e .a],
    #v[.mov .h .b, .mov .h .c, .mov .h .d, .mov .h .e,
      .mov .h .h, .mov .h .l, .mov .h .m, .mov .h .a,
      .mov .l .b, .mov .l .c, .mov .l .d, .mov .l .e,
      .mov .l .h, .mov .l .l, .mov .l .m, .mov .l .a],
    #v[.mov .m .b, .mov .m .c, .mov .m .d, .mov .m .e,
      .mov .m .h, .mov .m .l, .hlt, .mov .m .a,
      .mov .a .b, .mov .a .c, .mov .a .d, .mov .a .e,
      .mov .a .h, .mov .a .l, .mov .a .m, .mov .a .a],
    #v[.arithmetic .add .b, .arithmetic .add .c, .arithmetic .add .d, .arithmetic .add .e,
      .arithmetic .add .h, .arithmetic .add .l, .arithmetic .add .m, .arithmetic .add .a,
      .arithmetic .adc .b, .arithmetic .adc .c, .arithmetic .adc .d, .arithmetic .adc .e,
      .arithmetic .adc .h, .arithmetic .adc .l, .arithmetic .adc .m, .arithmetic .adc .a],
    #v[.arithmetic .sub .b, .arithmetic .sub .c, .arithmetic .sub .d, .arithmetic .sub .e,
      .arithmetic .sub .h, .arithmetic .sub .l, .arithmetic .sub .m, .arithmetic .sub .a,
      .arithmetic .sbb .b, .arithmetic .sbb .c, .arithmetic .sbb .d, .arithmetic .sbb .e,
      .arithmetic .sbb .h, .arithmetic .sbb .l, .arithmetic .sbb .m, .arithmetic .sbb .a],
    #v[.arithmetic .ana .b, .arithmetic .ana .c, .arithmetic .ana .d, .arithmetic .ana .e,
      .arithmetic .ana .h, .arithmetic .ana .l, .arithmetic .ana .m, .arithmetic .ana .a,
      .arithmetic .xra .b, .arithmetic .xra .c, .arithmetic .xra .d, .arithmetic .xra .e,
      .arithmetic .xra .h, .arithmetic .xra .l, .arithmetic .xra .m, .arithmetic .xra .a],
    #v[.arithmetic .ora .b, .arithmetic .ora .c, .arithmetic .ora .d, .arithmetic .ora .e,
      .arithmetic .ora .h, .arithmetic .ora .l, .arithmetic .ora .m, .arithmetic .ora .a,
      .arithmetic .cmp .b, .arithmetic .cmp .c, .arithmetic .cmp .d, .arithmetic .cmp .e,
      .arithmetic .cmp .h, .arithmetic .cmp .l, .arithmetic .cmp .m, .arithmetic .cmp .a],
    #v[.retIf .nz, .pop .bc, .jumpIf .nz, .jump,
      .callIf .nz, .push .bc, .immediate .add, .rst 0,
      .retIf .z, .ret, .jumpIf .z, .jump,
      .callIf .z, .call, .immediate .adc, .rst 1],
    #v[.retIf .nc, .pop .de, .jumpIf .nc, .output,
      .callIf .nc, .push .de, .immediate .sub, .rst 2,
      .retIf .c, .ret, .jumpIf .c, .input,
      .callIf .c, .call, .immediate .sbb, .rst 3],
    #v[.retIf .po, .pop .hl, .jumpIf .po, .xthl,
      .callIf .po, .push .hl, .immediate .ana, .rst 4,
      .retIf .pe, .pchl, .jumpIf .pe, .xchg,
      .callIf .pe, .call, .immediate .xra, .rst 5],
    #v[.retIf .p, .pop .psw, .jumpIf .p, .di, .callIf .p, .push .psw, .immediate .ora, .rst 6,
      .retIf .m, .sphl, .jumpIf .m, .ei, .callIf .m, .call, .immediate .cmp, .rst 7]
  ]

/-- The operation a code performs. -/
def Operation.ofCode (code : UInt8) : Operation :=
  -- Both digits of a byte are below sixteen.
  have bound : code.toNat < 256 := code.toNat_lt
  (opcodeMatrix[code.toNat / 16])[code.toNat % 16]

end Intel8080
