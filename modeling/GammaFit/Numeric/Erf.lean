import GammaFit.Numeric.Exp

/-! # Error functions

The complementary error function `erfc x = 1 - erf x` by rational approximations: for `|x| < 1`
through `erf`, for `1 ≤ |x| < 8` and beyond with two rational functions times `exp(-x²)`, the
negative side by `erfc (-x) = 2 - erfc x`. The scaled function `erfcx x = exp(x²) · erfc x`
stays finite where `erfc` underflows: on the right it is a polynomial of degree six in each of
100 intervals of `y = 4 / (4 + x)`, and beyond `x = 50` a five-term continued fraction.
-/

namespace GammaFit.Numeric

/-- Horner evaluation `c₀ xⁿ + c₁ xⁿ⁻¹ + … + cₙ`. -/
def horner (cs : List Float) (x : Float) : Float :=
  match cs with
  | [] => 0.0
  | c :: rest => rest.foldl (fun acc v => acc * x + v) c

/-- Horner evaluation of a monic polynomial: `xⁿ + c₀ xⁿ⁻¹ + … + cₙ₋₁`. -/
def hornerMonic (cs : List Float) (x : Float) : Float :=
  match cs with
  | [] => 1.0
  | c :: rest => rest.foldl (fun acc v => acc * x + v) (x + c)

/-- Numerator for `erfc` on `[1, 8)`. -/
def erfcNumSmall : List Float := [2.46196981473530512524e-10, 5.64189564831068821977e-1,
  7.46321056442269912687e0, 4.86371970985681366614e1, 1.96520832956077098242e2,
  5.26445194995477358631e2, 9.34528527171957607540e2, 1.02755188689515710272e3,
  5.57535335369399327526e2]
/-- Monic denominator for `erfc` on `[1, 8)`. -/
def erfcDenSmall : List Float := [1.32281951154744992508e1, 8.67072140885989742329e1,
  3.54937778887819891062e2, 9.75708501743205489753e2, 1.82390916687909736289e3,
  2.24633760818710981792e3, 1.65666309194161350182e3, 5.57535340817727675546e2]
/-- Numerator for `erfc` from `8` on. -/
def erfcNumLarge : List Float := [5.64189583547755073984e-1, 1.27536670759978104416e0,
  5.01905042251180477414e0, 6.16021097993053585195e0, 7.40974269950448939160e0,
  2.97886665372100240670e0]
/-- Monic denominator for `erfc` from `8` on. -/
def erfcDenLarge : List Float := [2.26052863220117276590e0, 9.39603524938001434673e0,
  1.20489539808096656605e1, 1.70814450747565897222e1, 9.60896809063285878198e0,
  3.36907645100081516050e0]
/-- Numerator for `erf` on `[0, 1]`, in `x²`. -/
def erfNum : List Float := [9.60497373987051638749e0, 9.00260197203842689217e1,
  2.23200534594684319226e3, 7.00332514112805075473e3, 5.55923013010394962768e4]
/-- Monic denominator for `erf` on `[0, 1]`, in `x²`. -/
def erfDen : List Float := [3.35617141647503099647e1, 5.21357949780152679795e2,
  4.59432382970980127987e3, 2.26290000613890934246e4, 4.92673942608635921086e4]

/-- Largest argument of `exp` that does not underflow to zero, as the rational forms use it. -/
def expArgLimit : Float := 7.09782712893383996843e2

/-- `erfc` for `|x| ≥ 1`, as `exp(-x²) · P(|x|) / Q(|x|)`, reflected for negative `x`;
an underflow gives `0` (or `2` on the left). -/
def erfcTail (a : Float) : Float :=
  let x := a.abs
  let z := -a * a
  if z < -expArgLimit then (if a < 0.0 then 2.0 else 0.0) else
  let e := Float.exp z
  let (p, q) :=
    if x < 8.0 then (horner erfcNumSmall x, hornerMonic erfcDenSmall x)
    else (horner erfcNumLarge x, hornerMonic erfcDenLarge x)
  let y := e * p / q
  let y := if a < 0.0 then 2.0 - y else y
  if y != 0.0 then y else if a < 0.0 then 2.0 else 0.0

/-- The error function: odd, `x · P(x²) / Q(x²)` on `[0, 1]`, `1 - erfc x` beyond. -/
def erf (x : Float) : Float :=
  if x.isNaN then x else
  let ax := x.abs
  let v :=
    if ax > 1.0 then 1.0 - erfcTail ax
    else
      let z := ax * ax
      ax * horner erfNum z / hornerMonic erfDen z
  if x < 0.0 then -v else v

/-- The complementary error function, `1 - erf x` computed without cancellation for `x ≥ 1`. -/
def erfc (a : Float) : Float :=
  if a.isNaN then a
  else if a.abs < 1.0 then 1.0 - erf a
  else erfcTail a

/-- Coefficients of `erfcx` on the intervals `[k/100, (k+1)/100)` of `y = 4 / (4 + x)`,
in powers of `t = 200 y - 2k - 1`, lowest first. -/
def erfcxTable : Array (Array Float) := #[
  #[7.0878032454106437883e-04, 7.1234091047026298470e-04, 3.5779077297601015939e-06, 1.7403143962938387693e-08, 8.1710658944650586334e-11, 3.6884993217662323099e-13, 1.5925146889023857013e-15],
  #[2.1479143208285142626e-03, 7.2686402367379992530e-04, 3.6843175430938993529e-06, 1.8071841272149201334e-08, 8.5496449296040238825e-11, 3.8852037518545194338e-13, 1.6868473578975735404e-15],
  #[3.6165255935630175217e-03, 7.4182092323555508598e-04, 3.7948319957528240220e-06, 1.8771627021793086856e-08, 8.9484715122415026273e-11, 4.0935858517753707773e-13, 1.7872061462788508213e-15],
  #[5.1154983860031977283e-03, 7.5722840734791655500e-04, 3.9096425726735704138e-06, 1.9504168704300468651e-08, 9.3687503063182731923e-11, 4.3143925959046697252e-13, 1.8939926411145470156e-15],
  #[6.6457513172673053983e-03, 7.7310406054447453408e-04, 4.0289510589399439998e-06, 2.0271233238288382229e-08, 9.8117631321707460664e-11, 4.5484207405963781003e-13, 2.0076352224590625483e-15],
  #[8.2082389970241208949e-03, 7.8946629611881713635e-04, 4.1529701552622652597e-06, 2.1074693344544656981e-08, 1.0278874108587665514e-10, 4.7965201390619616789e-13, 2.1285907390043471045e-15],
  #[9.8039537275352185014e-03, 8.0633440108342842745e-04, 4.2819241329736985822e-06, 2.1916534346907171632e-08, 1.0771535136565444218e-10, 5.0595972623534228320e-13, 2.2573462677044642367e-15],
  #[1.1433927298290302160e-02, 8.2372858383196565380e-04, 4.4160495311765436298e-06, 2.2798861426211983828e-08, 1.1291291745878635449e-10, 5.3386189365971239987e-13, 2.3944209584734241736e-15],
  #[1.3099232878814653577e-02, 8.4167002467906964353e-04, 4.5555958988457507502e-06, 2.3723907357214176927e-08, 1.1839789326602455959e-10, 5.6346163067291726069e-13, 2.5403679645699740448e-15],
  #[1.4800987015587536294e-02, 8.6018092946345942572e-04, 4.7008265848816865840e-06, 2.4694040760197315388e-08, 1.2418779768752021450e-10, 5.9486890370234989526e-13, 2.6957764587136290175e-15],
  #[1.6540351739394068553e-02, 8.7928458641241464579e-04, 4.8520195793001752032e-06, 2.5711774900881709941e-08, 1.3030128534231157489e-10, 6.2820097586703971840e-13, 2.8612737343169148566e-15],
  #[1.8318536789842392726e-02, 8.9900542647891720695e-04, 5.0094684089553369346e-06, 2.6779777074218069718e-08, 1.3675822186304318496e-10, 6.6358287745451279164e-13, 3.0375273904624077342e-15],
  #[2.0136801964214277177e-02, 9.1936908737673677262e-04, 5.1734830914104275551e-06, 2.7900878609710435845e-08, 1.4357976402809408079e-10, 7.0114790310910282195e-13, 3.2252475983928869445e-15],
  #[2.1996459598282742248e-02, 9.4040248155366783136e-04, 5.3443911508041166500e-06, 2.9078085538049110260e-08, 1.5078844500306465660e-10, 7.4103813669166619696e-13, 3.4251894463122035068e-15],
  #[2.3898877187226320179e-02, 9.6213386835900178203e-04, 5.5225386998049014723e-06, 3.0314589961047686575e-08, 1.5840826497296047292e-10, 7.8340500472581858175e-13, 3.6381553582072977996e-15],
  #[2.5845480155298517638e-02, 9.8459293067820123461e-04, 5.7082915920051847299e-06, 3.1613782169164832070e-08, 1.6646478745528270711e-10, 8.2840985928720477521e-13, 3.8649975811928972504e-15],
  #[2.7837754783474697590e-02, 1.0078108563256892201e-03, 5.9020366493792215758e-06, 3.2979263553246651654e-08, 1.7498524159244510198e-10, 8.7622459111844645677e-13, 4.1066207345454436795e-15],
  #[2.9877251304899307693e-02, 1.0318204245057349504e-03, 6.1041829697162056252e-06, 3.4414860359542724581e-08, 1.8399863072932810131e-10, 9.2703227366175650847e-13, 4.3639844121286034570e-15],
  #[3.1965587178596446827e-02, 1.0566560976716574387e-03, 6.3151633192414583222e-06, 3.5924638339521962998e-08, 1.9353584758817261473e-10, 9.8102783859219251389e-13, 4.6381058283176214982e-15],
  #[3.4104450552588337631e-02, 1.0823541191350531665e-03, 6.5354356159553932937e-06, 3.7512918348533517386e-08, 2.0362979635822081100e-10, 1.0384187833055824299e-12, 4.9300624958038341064e-15],
  #[3.6295603928292424767e-02, 1.1089526167995268895e-03, 6.7654845095518363409e-06, 3.9184292949913591318e-08, 2.1431552202131993681e-10, 1.0994259106647268975e-12, 5.2409949218059549420e-15],
  #[3.8540888038840509511e-02, 1.1364917134175419461e-03, 7.0058230641246312963e-06, 4.0943644083718590700e-08, 2.2563034723689726420e-10, 1.1642841011340507932e-12, 5.5721093072356892568e-15],
  #[4.0842225954785961461e-02, 1.1650136437945674689e-03, 7.2569945502343003932e-06, 4.2796161861855047662e-08, 2.3761401711004858005e-10, 1.2332431172349725496e-12, 5.9246802312688636575e-15],
  #[4.3201627431540219615e-02, 1.1945628793917271136e-03, 7.5195743532849202860e-06, 4.4747364553960990599e-08, 2.5030885216471298168e-10, 1.3065684400305578043e-12, 6.3000533015694495041e-15],
  #[4.5621193513810470721e-02, 1.2251862608067530004e-03, 7.7941720055551918134e-06, 4.6803119830954462463e-08, 2.6375990983976424760e-10, 1.3845421370972857227e-12, 6.6996477481158060464e-15],
  #[4.8103121413299865239e-02, 1.2569331386432195264e-03, 8.0814333496367680190e-06, 4.8969667335682013240e-08, 2.7801515481905880475e-10, 1.4674637611629625451e-12, 7.1249589362025836507e-15],
  #[5.0649709676983338535e-02, 1.2898555233099055165e-03, 8.3820428414568805086e-06, 5.1253642652551835288e-08, 2.9312563849676194915e-10, 1.5556512782821372260e-12, 7.5775607717581988604e-15],
  #[5.3263363664388864438e-02, 1.3240082443256974767e-03, 8.6967260015007665934e-06, 5.3662102750396791777e-08, 3.0914568786632803191e-10, 1.6494420240832783434e-12, 8.0591079696504562152e-15],
  #[5.5946601353500012566e-02, 1.3594491197408190269e-03, 9.0262520233016381828e-06, 5.6202552975056636828e-08, 3.2613310410504699824e-10, 1.7491936862551828934e-12, 8.5713381531795201480e-15],
  #[5.8702059496154083973e-02, 1.3962391363223647118e-03, 9.3714365487312788910e-06, 5.8882975670265225148e-08, 3.4414937110579130874e-10, 1.8552853110437586129e-12, 9.1160737505095441472e-15],
  #[6.1532500145144775061e-02, 1.4344426411912014445e-03, 9.7331446201016809112e-06, 6.1711860507347031941e-08, 3.6325987418320728315e-10, 1.9681183311049274897e-12, 9.6952236514033716457e-15],
  #[6.4440817576653292020e-02, 1.4741275456383131671e-03, 1.0112293819576437541e-05, 6.4698236605933062821e-08, 3.8353412915281186473e-10, 2.0881176116059421857e-12, 1.0310784585337686745e-14],
  #[6.7430045633130389349e-02, 1.5153655418916540162e-03, 1.0509857606888328883e-05, 6.7851706529363401423e-08, 4.0504602194800162119e-10, 2.2157325109872935832e-12, 1.0964842179931375910e-14],
  #[7.0503365513338855930e-02, 1.5582323336495709689e-03, 1.0926868866865230471e-05, 7.1182482239613427999e-08, 4.2787405890160101320e-10, 2.3514379522926437076e-12, 1.1659571656662943984e-14],
  #[7.3664114037944594671e-02, 1.6028078812438820502e-03, 1.1364423678778207824e-05, 7.4701423097423096704e-08, 4.5210162777503701791e-10, 2.4957355004473341191e-12, 1.2397238119131604374e-14],
  #[7.6915792420819556474e-02, 1.6491766623447888518e-03, 1.1823685320041301414e-05, 7.8420075993781621279e-08, 4.7781726956931771092e-10, 2.6491544403201668943e-12, 1.3180196387680908025e-14],
  #[8.0262075578094616013e-02, 1.6974279491709504380e-03, 1.2305888517309892882e-05, 8.2350717698978920016e-08, 5.0511496109754903690e-10, 2.8122528498420217174e-12, 1.4010890333104629055e-14],
  #[8.3706822008980358296e-02, 1.7476561032212657287e-03, 1.2812343958540764181e-05, 8.6506399515036661699e-08, 5.3409440823860342638e-10, 2.9856186618828380310e-12, 1.4891851661443399000e-14],
  #[8.7254084284461713716e-02, 1.7999608886001962176e-03, 1.3344443080089492501e-05, 9.0900994316428949462e-08, 5.6486134972568754013e-10, 3.1698707080105112635e-12, 1.5825698101608375679e-14],
  #[9.0908120182172744150e-02, 1.8544478050657700781e-03, 1.3903663143426119611e-05, 9.5549246062549859189e-08, 5.9752787125189218300e-10, 3.3656597366768658972e-12, 1.6815130947784246485e-14],
  #[9.4673404508075487129e-02, 1.9112284419887303963e-03, 1.4491572616545004784e-05, 1.0046682186333579843e-07, 6.3221272959739133652e-10, 3.5736693978032737698e-12, 1.7862931909315290618e-14],
  #[9.8554641648004454035e-02, 1.9704208544725622214e-03, 1.5109836875625444667e-05, 1.0567036667675970757e-07, 6.6904168639986614054e-10, 3.7946171851783025693e-12, 1.8971959222107654192e-14],
  #[1.0255677889470089792e-01, 2.0321499629472857332e-03, 1.5760224242962179406e-05, 1.1117756071353519137e-07, 7.0814785110112785647e-10, 4.0292553275392524944e-12, 2.0145142977527588497e-14],
  #[1.0668502059865093978e-01, 2.0965479776148729894e-03, 1.6444612377624981956e-05, 1.1700717962026140642e-07, 7.4967203250903856522e-10, 4.2783716186960918964e-12, 2.1385479627370618358e-14],
  #[1.1094484319386443971e-01, 2.1637548491908169951e-03, 1.7164995035719655996e-05, 1.2317915750735903183e-07, 7.9376309831498357797e-10, 4.5427901765781842448e-12, 2.2696025626746694756e-14],
  #[1.1534201115268805093e-01, 2.2339187474546421189e-03, 1.7923489217504225753e-05, 1.2971465288245999646e-07, 8.4057834180373686560e-10, 4.8233721206493796411e-12, 2.4079890180687903335e-14],
  #[1.1988259392684094684e-01, 2.3071965691918690580e-03, 1.8722342718958936628e-05, 1.3663611754337979594e-07, 8.9028385488504883939e-10, 5.1210161567540542256e-12, 2.5540227064947029775e-14],
  #[1.2457298393509812218e-01, 2.3837544771809575893e-03, 1.9563942105711611602e-05, 1.4396736847739493529e-07, 9.4305490646523485420e-10, 5.4366590581337281906e-12, 2.7080225496815110049e-14],
  #[1.2941991566142438397e-01, 2.4637684719508857849e-03, 2.0450821127475881761e-05, 1.5173366280523916915e-07, 9.9907632506310177735e-10, 5.7712760310994841809e-12, 2.8703100037832220217e-14],
  #[1.3443048593088696707e-01, 2.5474249981080822509e-03, 2.1385669591362915911e-05, 1.5996177579900439678e-07, 1.0585428844584347987e-09, 6.1258809536674953684e-12, 3.0412079516974703671e-14],
  #[1.3961217543434562005e-01, 2.6349215871051762453e-03, 2.2371342712572567528e-05, 1.6868008199296814953e-07, 1.1216596910437899497e-09, 6.5015264753713904129e-12, 3.2210394970239087043e-14],
  #[1.4497287157673799385e-01, 2.7264675383982441698e-03, 2.3410870961050952191e-05, 1.7791863939526380279e-07, 1.1886425714323778102e-09, 6.8993039664632236178e-12, 3.4101266600462102360e-14],
  #[1.5052089272774618611e-01, 2.8222846410136236822e-03, 2.4507470422713398305e-05, 1.8770927679626157949e-07, 1.2597184587573253602e-09, 7.3203433048110324634e-12, 3.6087889769659761544e-14],
  #[1.5626501395774611280e-01, 2.9226079376196627095e-03, 2.5664553693768450671e-05, 1.9808568415654469485e-07, 1.3351257759815838181e-09, 7.7658124890013790862e-12, 3.8173420045067553465e-14],
  #[1.6221449434620738295e-01, 3.0276865332726477474e-03, 2.6885741326534563469e-05, 2.0908350604346401608e-07, 1.4151148144242840838e-09, 8.2369170664647549567e-12, 4.0360957329339938675e-14],
  #[1.6837910595412131087e-01, 3.1377844510793082532e-03, 2.8174873844911173460e-05, 2.2074043807045818973e-07, 1.4999481055995141533e-09, 8.7348993658644043726e-12, 4.2653529114930605151e-14],
  #[1.7476916455659369243e-01, 3.2531815370903066457e-03, 2.9536024347344364747e-05, 2.3309632627767074379e-07, 1.5899007843584951121e-09, 9.2610375235277211724e-12, 4.5054072912429049380e-14],
  #[1.8139556223643701904e-01, 3.3741744168096997857e-03, 3.0973511714709501825e-05, 2.4619326937592281336e-07, 1.6852609412270836434e-09, 9.8166442943557392707e-12, 4.7565417912467934885e-14],
  #[1.8826980194443665440e-01, 3.5010775057740316056e-03, 3.2491914440014267856e-05, 2.6007572375886304447e-07, 1.7863299617386521711e-09, 1.0403065638420515025e-11, 5.0190265950629192020e-14],
  #[1.9540403413693968604e-01, 3.6342240767211326201e-03, 3.4096085096200905737e-05, 2.7479061117017631124e-07, 1.8934228504788415608e-09, 1.1021679075351631143e-11, 5.2931171854448875997e-14],
  #[2.0281109560651885970e-01, 3.7739673859323598880e-03, 3.5791165457592407219e-05, 2.9038742889416168407e-07, 2.0068685374846159581e-09, 1.1673891799618947093e-11, 5.5790523261033570502e-14],
  #[2.1050455062669334860e-01, 3.9206818613925654288e-03, 3.7582602289680104883e-05, 3.0691836231886897956e-07, 2.1270101645766087307e-09, 1.2361138550935636134e-11, 5.8770520002835146683e-14],
  #[2.1849873453703333448e-01, 4.0747643554689587722e-03, 3.9476163820986709917e-05, 3.2443839970139926522e-07, 2.2542053491519926142e-09, 1.3084879235227737526e-11, 6.1873153167667563352e-14],
  #[2.2680879990043228966e-01, 4.2366354648628520851e-03, 4.1477956909656896320e-05, 3.4300544894502793971e-07, 2.3888264229261043577e-09, 1.3846596292937786257e-11, 6.5100183946973413637e-14],
  #[2.3545076536988704397e-01, 4.4067409206365168103e-03, 4.3594444916224701350e-05, 3.6268045617760415003e-07, 2.5312606430856903222e-09, 1.4647791812842041169e-11, 6.8453122393548298597e-14],
  #[2.4444156740777434056e-01, 4.5855530511605784028e-03, 4.5832466292683085975e-05, 3.8352752590033007582e-07, 2.6819103733058423005e-09, 1.5489984391054484664e-11, 7.1933206216302157233e-14],
  #[2.5379911500634266819e-01, 4.7735723208650032018e-03, 4.8199253896534185494e-05, 4.0561404245564728057e-07, 2.8411932320871833813e-09, 1.6374705736455313063e-11, 7.5541379745082984312e-14],
  #[2.6354234756393613015e-01, 4.9713289477083784720e-03, 5.0702455036930366866e-05, 4.2901079254268174302e-07, 3.0095422058903119992e-09, 1.7303497025405579650e-11, 7.9278273203021159896e-14],
  #[2.7369129607732345377e-01, 5.1793846023052642416e-03, 5.3350152258326602158e-05, 4.5379208848865012384e-07, 3.1874057245814405508e-09, 1.8277905010280358533e-11, 8.3144182427197378368e-14],
  #[2.8426714781640316509e-01, 5.3983341916695138860e-03, 5.6150884865255811743e-05, 4.8003589196494737109e-07, 3.3752476967569854621e-09, 1.9299477888056652229e-11, 8.7139049180628733942e-14],
  #[2.9529231465348521057e-01, 5.6288077305420795154e-03, 5.9113671189913308127e-05, 5.0782393781744856605e-07, 3.5735475025858393448e-09, 2.0369760936915442981e-11, 9.1262442199556524044e-14],
  #[3.0679050522528839018e-01, 5.8714723032745400055e-03, 6.2248031602197683321e-05, 5.3724185766200931838e-07, 3.7827999418962734500e-09, 2.1490291930544757654e-11, 9.5513539119767742099e-14],
  #[3.1878680111173318679e-01, 6.1270341192339100242e-03, 6.5564012259707637521e-05, 5.6837930287837699838e-07, 4.0035151353399102120e-09, 2.2662596341547558610e-11, 9.9891109424170584451e-14],
  #[3.3130773722152623284e-01, 6.3962406646798078066e-03, 6.9072209592942399579e-05, 6.0133006661885939705e-07, 4.2362183765877156730e-09, 2.3888182347049505162e-11, 1.0439349855106340367e-13],
  #[3.4438138658041334006e-01, 6.6798829540414004016e-03, 7.2783795518603557756e-05, 6.3619220443228806451e-07, 4.4814499336522079241e-09, 2.5168535651251903952e-11, 1.0901861329849642412e-13],
  #[3.5803744972380174838e-01, 6.9787978834882687801e-03, 7.6710543371454821180e-05, 6.7306815308917367125e-07, 4.7397647975855806204e-09, 2.6505114141269453875e-11, 1.1376390865484928041e-13],
  #[3.7230734890119726588e-01, 7.2938706896461379808e-03, 8.0864854542670719026e-05, 7.1206484718062680291e-07, 5.0117323769745015805e-09, 2.7899342394116206462e-11, 1.1862637617927212843e-13],
  #[3.8722432730555450542e-01, 7.6260375162549801781e-03, 8.5259785810004609327e-05, 7.5329383305171329216e-07, 5.2979361368382884083e-09, 2.9352606054142292117e-11, 1.2360253404801674817e-13],
  #[4.0282355354616938836e-01, 7.9762880915029733819e-03, 8.9909077342438249421e-05, 7.9687137961956181333e-07, 5.5989731807369669013e-09, 3.0866246101565084125e-11, 1.2868841887398071297e-13],
  #[4.1914223158913788136e-01, 8.3456685186950457789e-03, 9.4827181359250159866e-05, 8.4291858561783195514e-07, 5.9154537751084407340e-09, 3.2441553033969035941e-11, 1.3387957939708106297e-13],
  #[4.3621971639463785753e-01, 8.7352841828289493065e-03, 1.0002929142066799327e-04, 8.9156148280219843466e-07, 6.2480008150783868861e-09, 3.4079760983757039982e-11, 1.3917107213244990812e-13],
  #[4.5409763548534332056e-01, 9.1463027755548237385e-03, 1.0553137232446167001e-04, 9.4293113464638616582e-07, 6.5972492312213419190e-09, 3.5782041795511919036e-11, 1.4455745905200347922e-13],
  #[4.7282001668512330106e-01, 9.5799574408860464769e-03, 1.1135019058000067004e-04, 9.9716373005509048819e-07, 6.9638453369953260033e-09, 3.7549499088061380352e-11, 1.5003280736278369937e-13],
  #[4.9243342227179842663e-01, 1.0037550043909496816e-02, 1.1750334542845235154e-04, 1.0544006716188962868e-06, 7.3484461168238624804e-09, 3.9383162326724199530e-11, 1.5559069143271964500e-13],
  #[5.1298708979209262093e-01, 1.0520454564612426521e-02, 1.2400930037494996803e-04, 1.1147886579371266974e-06, 7.7517184550568223768e-09, 4.1283980931744476982e-11, 1.6122419690122544022e-13],
  #[5.3453307979101372105e-01, 1.1030120618800726834e-02, 1.3088741519572268763e-04, 1.1784797595374519088e-06, 8.1743383063035658378e-09, 4.3252818449288349402e-11, 1.6692592699846219738e-13],
  #[5.5712643071169298814e-01, 1.1568077107929735856e-02, 1.3815797838036652221e-04, 1.2456314879260903026e-06, 8.6169898078967992212e-09, 4.5290446811580941069e-11, 1.7268801108326996618e-13],
  #[5.8082532122519325846e-01, 1.2135935999503877705e-02, 1.4584223996665839160e-04, 1.3164068573095714847e-06, 9.0803643355116540550e-09, 4.7397540712797625897e-11, 1.7850211539584507674e-13],
  #[6.0569124025293374913e-01, 1.2735396239525549958e-02, 1.5396244472258864403e-04, 1.3909744385382825816e-06, 9.5651595032301364957e-09, 4.9574672127193183417e-11, 1.8435945600732409364e-13],
  #[6.3178916494715720020e-01, 1.3368247798287031733e-02, 1.6254186562762075875e-04, 1.4695084048334057376e-06, 1.0072078109604653041e-08, 5.1822304995655474033e-11, 1.9025081393465885521e-13],
  #[6.5918774689725323501e-01, 1.4036375850601991860e-02, 1.7160483760259706890e-04, 1.5521885688723181227e-06, 1.0601827031533948735e-08, 5.4140790106409383562e-11, 1.9616655237564599674e-13],
  #[6.8795950683174433848e-01, 1.4741765091365868420e-02, 1.8117679143520433417e-04, 1.6392004108230584397e-06, 1.1155116068019179444e-08, 5.6530360194975910515e-11, 2.0209663600582208829e-13],
  #[7.1818103808729971682e-01, 1.5486504187117111631e-02, 1.9128428784550923522e-04, 1.7307350969359972911e-06, 1.1732656736115079095e-08, 5.8991125287715109155e-11, 2.0803065226625914171e-13],
  #[7.4993321911726251727e-01, 1.6272790364044782685e-02, 2.0195505163377912099e-04, 1.8269894883203343336e-06, 1.2335161021630049380e-08, 6.1523068312356981494e-11, 2.1395783455919393836e-13],
  #[7.8330143531283491498e-01, 1.7102934132652430899e-02, 2.1321800585063328207e-04, 1.9281661395543916504e-06, 1.2963340087357766143e-08, 6.4126040997858052794e-11, 2.1986708725699195209e-13],
  #[8.1837581041023810258e-01, 1.7979364149044222559e-02, 2.2510330592753128968e-04, 2.0344732868018166752e-06, 1.3617902941840473302e-08, 6.6799760084722715802e-11, 2.2574701241926306702e-13],
  #[8.5525144775685124632e-01, 1.8904632212547560488e-02, 2.3764237370371254620e-04, 2.1461248251306377153e-06, 1.4299555071868963258e-08, 6.9543803865606309980e-11, 2.3158593810308848191e-13],
  #[8.9402868170849936202e-01, 1.9881418399127201435e-02, 2.5086793128395993733e-04, 2.2633402747585236997e-06, 1.5008997042115379401e-08, 7.2357609074581284814e-11, 2.3737194814234792327e-13],
  #[9.3481333942870792342e-01, 2.0912536329780368610e-02, 2.6481403465998477800e-04, 2.3863447359754919424e-06, 1.5746923065471183945e-08, 7.5240468141911095032e-11, 2.4309291326410894129e-13],
  #[9.7771701335885030648e-01, 2.2000938572830478629e-02, 2.7951610702682381680e-04, 2.5153688325245311899e-06, 1.6514019547822989952e-08, 7.8191526829548332089e-11, 2.4873652340299728974e-13]]

/-- `erfcx` from `y100 = 100 · y`: the polynomial of its interval, or `1` at `y = 1`. -/
def erfcxOfY100 (y100 : Float) : Float :=
  let k := y100.toUInt64.toNat
  if k ≥ 100 then 1.0 else
  let c := erfcxTable.getD k #[]
  let g (i : Nat) := c.getD i 0.0
  let t := 2.0 * y100 - (2 * k + 1).toFloat
  g 0 + (g 1 + (g 2 + (g 3 + (g 4 + (g 5 + g 6 * t) * t) * t) * t) * t) * t

/-- `1 / √π`. -/
def invSqrtPi : Float := 0.56418958354775628694807945156

/-- The scaled complementary error function `exp(x²) · erfc x`. -/
def erfcx (x : Float) : Float :=
  if x.isNaN then x
  else if x ≥ 0.0 then
    if x > 50.0 then
      if x > 5e7 then invSqrtPi / x
      else invSqrtPi * ((x * x) * (x * x + 4.5) + 2.0) / (x * ((x * x) * (x * x + 5.0) + 3.75))
    else erfcxOfY100 (400.0 / (4.0 + x))
  else if x < -26.7 then 1.0 / 0.0
  else if x < -6.1 then 2.0 * Float.exp (x * x)
  else 2.0 * Float.exp (x * x) - erfcxOfY100 (400.0 / (4.0 - x))

end GammaFit.Numeric
