/-! The names that a plotting session has without importing them, each with the element it stands for. -/
set_option autoImplicit false

namespace PlotAdvisor.Elements

def sessionNames : List (String × String) := [
  ("GridSpec", "matplotlib.gridspec.GridSpec"),
  ("WE", "matplotlib.dates.WE"),
  ("TU", "matplotlib.dates.TU"),
  ("dist", "matplotlib.mlab.dist"),
  ("quiverkey", "matplotlib.pyplot.quiverkey"),
  ("xlim", "matplotlib.pyplot.xlim"),
  ("summer", "matplotlib.pyplot.summer"),
  ("MONTHLY", "matplotlib.dates.MONTHLY"),
  ("text", "matplotlib.pyplot.text"),
  ("over", "matplotlib.pyplot.over"),
  ("viridis", "matplotlib.pyplot.viridis"),
  ("sca", "matplotlib.pyplot.sca"),
  ("minorticks_off", "matplotlib.pyplot.minorticks_off"),
  ("absolute_import", "__future__.absolute_import"),
  ("connect", "matplotlib.pyplot.connect"),
  ("get_plot_commands", "matplotlib.pyplot.get_plot_commands"),
  ("entropy", "matplotlib.mlab.entropy"),
  ("sci", "matplotlib.pyplot.sci"),
  ("find", "matplotlib.mlab.find"),
  ("Subplot", "matplotlib.axes.Subplot"),
  ("style", "matplotlib.style"),
  ("FigureCanvasBase", "matplotlib.backend_bases.FigureCanvasBase"),
  ("disconnect", "matplotlib.pyplot.disconnect"),
  ("savefig", "matplotlib.pyplot.savefig"),
  ("is_closed_polygon", "matplotlib.mlab.is_closed_polygon"),
  ("clf", "matplotlib.pyplot.clf"),
  ("stineman_interp", "matplotlib.mlab.stineman_interp"),
  ("cla", "matplotlib.pyplot.cla"),
  ("tight_layout", "matplotlib.pyplot.tight_layout"),
  ("strpdate2num", "matplotlib.dates.strpdate2num"),
  ("PolarAxes", "matplotlib.projections.PolarAxes"),
  ("rec2csv", "matplotlib.mlab.rec2csv"),
  ("subplot_tool", "matplotlib.pyplot.subplot_tool"),
  ("ylabel", "matplotlib.pyplot.ylabel"),
  ("center_matrix", "matplotlib.mlab.center_matrix"),
  ("waitforbuttonpress", "matplotlib.pyplot.waitforbuttonpress"),
  ("plasma", "matplotlib.pyplot.plasma"),
  ("Annotation", "matplotlib.text.Annotation"),
  ("exception_to_str", "matplotlib.cbook.exception_to_str"),
  ("division", "__future__.division"),
  ("plotfile", "matplotlib.pyplot.plotfile"),
  ("get_scale_docs", "matplotlib.scale.get_scale_docs"),
  ("mlab", "matplotlib.mlab"),
  ("get", "matplotlib.artist.get"),
  ("get_scale_names", "matplotlib.scale.get_scale_names"),
  ("get_backend", "matplotlib.get_backend"),
  ("drange", "matplotlib.dates.drange"),
  ("hexbin", "matplotlib.pyplot.hexbin"),
  ("datestr2num", "matplotlib.dates.datestr2num"),
  ("np", "numpy"),
  ("Widget", "matplotlib.widgets.Widget"),
  ("grid", "matplotlib.pyplot.grid"),
  ("window_none", "matplotlib.mlab.window_none"),
  ("Arrow", "matplotlib.patches.Arrow"),
  ("delaxes", "matplotlib.pyplot.delaxes"),
  ("step", "matplotlib.pyplot.step"),
  ("bar", "matplotlib.pyplot.bar"),
  ("is_numlike", "matplotlib.cbook.is_numlike"),
  ("setp", "matplotlib.pyplot.setp"),
  ("cool", "matplotlib.pyplot.cool"),
  ("cbook", "matplotlib.cbook"),
  ("window_hanning", "matplotlib.mlab.window_hanning"),
  ("plot_date", "matplotlib.pyplot.plot_date"),
  ("FormatStrFormatter", "ticker.FormatStrFormatter"),
  ("relativedelta", "matplotlib.dates.relativedelta"),
  ("MonthLocator", "matplotlib.dates.MonthLocator"),
  ("pause", "matplotlib.pyplot.pause"),
  ("longest_contiguous_ones", "matplotlib.mlab.longest_contiguous_ones"),
  ("colors", "matplotlib.pyplot.colors"),
  ("boxplot", "matplotlib.pyplot.boxplot"),
  ("spy", "matplotlib.pyplot.spy"),
  ("fignum_exists", "matplotlib.pyplot.fignum_exists"),
  ("pcolormesh", "matplotlib.pyplot.pcolormesh"),
  ("loglog", "matplotlib.pyplot.loglog"),
  ("dist_point_to_segment", "matplotlib.mlab.dist_point_to_segment"),
  ("specgram", "matplotlib.pyplot.specgram"),
  ("stackplot", "matplotlib.pyplot.stackplot"),
  ("cycler", "cycler.cycler"),
  ("rcParamsDefault", "matplotlib.rcParamsDefault"),
  ("bone", "matplotlib.pyplot.bone"),
  ("fftsurr", "matplotlib.mlab.fftsurr"),
  ("matshow", "matplotlib.pyplot.matshow"),
  ("LogFormatter", "ticker.LogFormatter"),
  ("poly_below", "matplotlib.mlab.poly_below"),
  ("install_repl_displayhook", "matplotlib.pyplot.install_repl_displayhook"),
  ("uninstall_repl_displayhook", "matplotlib.pyplot.uninstall_repl_displayhook"),
  ("isvector", "matplotlib.mlab.isvector"),
  ("_auto_draw_if_interactive", "matplotlib.pyplot._auto_draw_if_interactive"),
  ("findobj", "matplotlib.pyplot.findobj"),
  ("ioff", "matplotlib.pyplot.ioff"),
  ("NullLocator", "ticker.NullLocator"),
  ("prctile", "matplotlib.mlab.prctile"),
  ("ishold", "matplotlib.pyplot.ishold"),
  ("magma", "matplotlib.pyplot.magma"),
  ("plt", "matplotlib.pyplot"),
  ("figimage", "matplotlib.pyplot.figimage"),
  ("flatten", "matplotlib.cbook.flatten"),
  ("getname_val", "matplotlib.pyplot.getname_val"),
  ("LogFormatterMathtext", "ticker.LogFormatterMathtext"),
  ("psd", "matplotlib.pyplot.psd"),
  ("close", "matplotlib.pyplot.close"),
  ("Circle", "matplotlib.patches.Circle"),
  ("Formatter", "ticker.Formatter"),
  ("is_string_like", "matplotlib.cbook.is_string_like"),
  ("MINUTELY", "matplotlib.dates.MINUTELY"),
  ("spectral", "matplotlib.pyplot.spectral"),
  ("colorbar", "matplotlib.pyplot.colorbar"),
  ("NullFormatter", "ticker.NullFormatter"),
  ("autoscale", "matplotlib.pyplot.autoscale"),
  ("YearLocator", "matplotlib.dates.YearLocator"),
  ("get_xyz_where", "matplotlib.mlab.get_xyz_where"),
  ("inside_poly", "matplotlib.mlab.inside_poly"),
  ("axes", "matplotlib.pyplot.axes"),
  ("IndexLocator", "ticker.IndexLocator"),
  ("streamplot", "matplotlib.pyplot.streamplot"),
  ("hist", "matplotlib.pyplot.hist"),
  ("bivariate_normal", "matplotlib.mlab.bivariate_normal"),
  ("phase_spectrum", "matplotlib.pyplot.phase_spectrum"),
  ("violinplot", "matplotlib.pyplot.violinplot"),
  ("iterable", "matplotlib.cbook.iterable"),
  ("rc", "matplotlib.pyplot.rc"),
  ("axvline", "matplotlib.pyplot.axvline"),
  ("copper", "matplotlib.pyplot.copper"),
  ("plotting", "matplotlib.pyplot.plotting"),
  ("LinearLocator", "ticker.LinearLocator"),
  ("twinx", "matplotlib.pyplot.twinx"),
  ("contourf", "matplotlib.pyplot.contourf"),
  ("_pylab_helpers", "matplotlib._pylab_helpers"),
  ("log2", "matplotlib.mlab.log2"),
  ("arrow", "matplotlib.pyplot.arrow"),
  ("date2num", "matplotlib.dates.date2num"),
  ("plot", "matplotlib.pyplot.plot"),
  ("imsave", "matplotlib.pyplot.imsave"),
  ("rec_join", "matplotlib.mlab.rec_join"),
  ("acorr", "matplotlib.pyplot.acorr"),
  ("num2epoch", "matplotlib.dates.num2epoch"),
  ("detrend_mean", "matplotlib.mlab.detrend_mean"),
  ("errorbar", "matplotlib.pyplot.errorbar"),
  ("detrend_linear", "matplotlib.mlab.detrend_linear"),
  ("detrend", "matplotlib.mlab.detrend"),
  ("LogLocator", "ticker.LogLocator"),
  ("frange", "matplotlib.mlab.frange"),
  ("eventplot", "matplotlib.pyplot.eventplot"),
  ("subplot2grid", "matplotlib.pyplot.subplot2grid"),
  ("vector_lengths", "matplotlib.mlab.vector_lengths"),
  ("Line2D", "matplotlib.lines.Line2D"),
  ("rgrids", "matplotlib.pyplot.rgrids"),
  ("_string_to_bool", "matplotlib.cbook._string_to_bool"),
  ("legend", "matplotlib.pyplot.legend"),
  ("_setp", "matplotlib.artist.setp"),
  ("WEEKLY", "matplotlib.dates.WEEKLY"),
  ("box", "matplotlib.pyplot.box"),
  ("_autogen_docstring", "matplotlib.pyplot._autogen_docstring"),
  ("fill_betweenx", "matplotlib.pyplot.fill_betweenx"),
  ("IndexDateFormatter", "matplotlib.dates.IndexDateFormatter"),
  ("MO", "matplotlib.dates.MO"),
  ("DateFormatter", "matplotlib.dates.DateFormatter"),
  ("semilogx", "matplotlib.pyplot.semilogx"),
  ("l2norm", "matplotlib.mlab.l2norm"),
  ("hot", "matplotlib.pyplot.hot"),
  ("rrule", "matplotlib.dates.rrule"),
  ("Locator", "ticker.Locator"),
  ("_backend_selection", "matplotlib.pyplot._backend_selection"),
  ("broken_barh", "matplotlib.pyplot.broken_barh"),
  ("HourLocator", "matplotlib.dates.HourLocator"),
  ("epoch2num", "matplotlib.dates.epoch2num"),
  ("l1norm", "matplotlib.mlab.l1norm"),
  ("magnitude_spectrum", "matplotlib.pyplot.magnitude_spectrum"),
  ("xcorr", "matplotlib.pyplot.xcorr"),
  ("_imsave", "matplotlib.image.imsave"),
  ("ginput", "matplotlib.pyplot.ginput"),
  ("ScalarFormatter", "ticker.ScalarFormatter"),
  ("FR", "matplotlib.dates.FR"),
  ("imshow", "matplotlib.pyplot.imshow"),
  ("post_execute", "matplotlib.pyplot.post_execute"),
  ("cm", "matplotlib.cm"),
  ("exp_safe", "matplotlib.mlab.exp_safe"),
  ("make_active", "matplotlib.pyplot.make_active"),
  ("fill_between", "matplotlib.pyplot.fill_between"),
  ("Axes", "matplotlib.axes.Axes"),
  ("MaxNLocator", "ticker.MaxNLocator"),
  ("num2date", "matplotlib.dates.num2date"),
  ("twiny", "matplotlib.pyplot.twiny"),
  ("annotate", "matplotlib.pyplot.annotate"),
  ("silent_list", "matplotlib.cbook.silent_list"),
  ("pink", "matplotlib.pyplot.pink"),
  ("figtext", "matplotlib.pyplot.figtext"),
  ("norm_flat", "matplotlib.mlab.norm_flat"),
  ("yscale", "matplotlib.pyplot.yscale"),
  ("xscale", "matplotlib.pyplot.xscale"),
  ("tricontourf", "matplotlib.pyplot.tricontourf"),
  ("table", "matplotlib.pyplot.table"),
  ("cohere", "matplotlib.pyplot.cohere"),
  ("normpdf", "matplotlib.mlab.normpdf"),
  ("clim", "matplotlib.pyplot.clim"),
  ("AutoLocator", "ticker.AutoLocator"),
  ("Rectangle", "matplotlib.patches.Rectangle"),
  ("ticklabel_format", "matplotlib.pyplot.ticklabel_format"),
  ("get_cmap", "matplotlib.cm.get_cmap"),
  ("HOURLY", "matplotlib.dates.HOURLY"),
  ("fill", "matplotlib.pyplot.fill"),
  ("jet", "matplotlib.pyplot.jet"),
  ("figaspect", "matplotlib.figure.figaspect"),
  ("margins", "matplotlib.pyplot.margins"),
  ("*", "matplotlib.pyplot.*"),
  ("axhline", "matplotlib.pyplot.axhline"),
  ("axhspan", "matplotlib.pyplot.axhspan"),
  ("clabel", "matplotlib.pyplot.clabel"),
  ("tick_params", "matplotlib.pyplot.tick_params"),
  ("subplots_adjust", "matplotlib.pyplot.subplots_adjust"),
  ("gray", "matplotlib.pyplot.gray"),
  ("print_function", "__future__.print_function"),
  ("_interactive_bk", "matplotlib.rcsetup.interactive_bk"),
  ("spring", "matplotlib.pyplot.spring"),
  ("show", "matplotlib.pyplot.show"),
  ("GObject", "gi.repository.GObject"),
  ("patheffects", "matplotlib.patheffects"),
  ("mx2num", "matplotlib.dates.mx2num"),
  ("LogFormatterExponent", "ticker.LogFormatterExponent"),
  ("YEARLY", "matplotlib.dates.YEARLY"),
  ("stem", "matplotlib.pyplot.stem"),
  ("vlines", "matplotlib.pyplot.vlines"),
  ("longest_ones", "matplotlib.mlab.longest_ones"),
  ("path_length", "matplotlib.mlab.path_length"),
  ("ylim", "matplotlib.pyplot.ylim"),
  ("minorticks_on", "matplotlib.pyplot.minorticks_on"),
  ("hlines", "matplotlib.pyplot.hlines"),
  ("switch_backend", "matplotlib.pyplot.switch_backend"),
  ("distances_along_curve", "matplotlib.mlab.distances_along_curve"),
  ("flag", "matplotlib.pyplot.flag"),
  ("csv2rec", "matplotlib.mlab.csv2rec"),
  ("locator_params", "matplotlib.pyplot.locator_params"),
  ("prctile_rank", "matplotlib.mlab.prctile_rank"),
  ("hold", "matplotlib.pyplot.hold"),
  ("slopes", "matplotlib.mlab.slopes"),
  ("xticks", "matplotlib.pyplot.xticks"),
  ("segments_intersect", "matplotlib.mlab.segments_intersect"),
  ("ispower2", "matplotlib.mlab.ispower2"),
  ("ma", "numpy.ma"),
  ("rcdefaults", "matplotlib.pyplot.rcdefaults"),
  ("hist2d", "matplotlib.pyplot.hist2d"),
  ("Text", "matplotlib.text.Text"),
  ("rec_append_fields", "matplotlib.mlab.rec_append_fields"),
  ("SU", "matplotlib.dates.SU"),
  ("triplot", "matplotlib.pyplot.triplot"),
  ("xkcd", "matplotlib.pyplot.xkcd"),
  ("DateLocator", "matplotlib.dates.DateLocator"),
  ("xlabel", "matplotlib.pyplot.xlabel"),
  ("SA", "matplotlib.dates.SA"),
  ("rc_context", "matplotlib.pyplot.rc_context"),
  ("scatter", "matplotlib.pyplot.scatter"),
  ("interactive", "matplotlib.interactive"),
  ("Normalize", "matplotlib.colors.Normalize"),
  ("rk4", "matplotlib.mlab.rk4"),
  ("MinuteLocator", "matplotlib.dates.MinuteLocator"),
  ("quiver", "matplotlib.pyplot.quiver"),
  ("Polygon", "matplotlib.patches.Polygon"),
  ("figure", "matplotlib.pyplot.figure"),
  ("SECONDLY", "matplotlib.dates.SECONDLY"),
  ("unicode_literals", "__future__.unicode_literals"),
  ("PLT", "matplotlib.pyplot"),
  ("get_sparse_matrix", "matplotlib.mlab.get_sparse_matrix"),
  ("pie", "matplotlib.pyplot.pie"),
  ("DAILY", "matplotlib.dates.DAILY"),
  ("semilogy", "matplotlib.pyplot.semilogy"),
  ("autumn", "matplotlib.pyplot.autumn"),
  ("imread", "matplotlib.pyplot.imread"),
  ("gca", "matplotlib.pyplot.gca"),
  ("set_cmap", "matplotlib.pyplot.set_cmap"),
  ("subplot", "matplotlib.pyplot.subplot"),
  ("barh", "matplotlib.pyplot.barh"),
  ("angle_spectrum", "matplotlib.pyplot.angle_spectrum"),
  ("rms_flat", "matplotlib.mlab.rms_flat"),
  ("DayLocator", "matplotlib.dates.DayLocator"),
  ("MultipleLocator", "ticker.MultipleLocator"),
  ("binary_repr", "matplotlib.mlab.binary_repr"),
  ("WeekdayLocator", "matplotlib.dates.WeekdayLocator"),
  ("get_current_fig_manager", "matplotlib.pyplot.get_current_fig_manager"),
  ("suptitle", "matplotlib.pyplot.suptitle"),
  ("gcf", "matplotlib.pyplot.gcf"),
  ("gci", "matplotlib.pyplot.gci"),
  ("csd", "matplotlib.pyplot.csd"),
  ("RRuleLocator", "matplotlib.dates.RRuleLocator"),
  ("six", "matplotlib.externals.six"),
  ("get_fignums", "matplotlib.pyplot.get_fignums"),
  ("contour", "matplotlib.pyplot.contour"),
  ("figlegend", "matplotlib.pyplot.figlegend"),
  ("Slider", "matplotlib.widgets.Slider"),
  ("prism", "matplotlib.pyplot.prism"),
  ("poly_between", "matplotlib.mlab.poly_between"),
  ("pad", "matplotlib.pyplot.pad"),
  ("get_ipython", "IPython.get_ipython"),
  ("TH", "matplotlib.dates.TH"),
  ("get_figlabels", "matplotlib.pyplot.get_figlabels"),
  ("getp", "matplotlib.artist.getp"),
  ("tripcolor", "matplotlib.pyplot.tripcolor"),
  ("FixedFormatter", "ticker.FixedFormatter"),
  ("axis", "matplotlib.pyplot.axis"),
  ("register_cmap", "matplotlib.cm.register_cmap"),
  ("mpl", "matplotlib"),
  ("SecondLocator", "matplotlib.dates.SecondLocator"),
  ("dedent", "matplotlib.cbook.dedent"),
  ("polar", "matplotlib.pyplot.polar"),
  ("draw", "matplotlib.pyplot.draw"),
  ("SubplotTool", "matplotlib.widgets.SubplotTool"),
  ("Artist", "matplotlib.artist.Artist"),
  ("inferno", "matplotlib.pyplot.inferno"),
  ("Button", "matplotlib.widgets.Button"),
  ("yticks", "matplotlib.pyplot.yticks"),
  ("docstring", "matplotlib.docstring"),
  ("_setup_pyplot_info_docstrings", "matplotlib.pyplot._setup_pyplot_info_docstrings"),
  ("thetagrids", "matplotlib.pyplot.thetagrids"),
  ("ion", "matplotlib.pyplot.ion"),
  ("amap", "matplotlib.mlab.amap"),
  ("detrend_none", "matplotlib.mlab.detrend_none"),
  ("colormaps", "matplotlib.pyplot.colormaps"),
  ("identity", "matplotlib.mlab.identity"),
  ("winter", "matplotlib.pyplot.winter"),
  ("pcolor", "matplotlib.pyplot.pcolor"),
  ("griddata", "matplotlib.mlab.griddata"),
  ("movavg", "matplotlib.mlab.movavg"),
  ("isinteractive", "matplotlib.pyplot.isinteractive"),
  ("Figure", "matplotlib.figure.Figure"),
  ("tricontour", "matplotlib.pyplot.tricontour"),
  ("axvspan", "matplotlib.pyplot.axvspan"),
  ("pylab_setup", "matplotlib.backends.pylab_setup"),
  ("TickHelper", "ticker.TickHelper"),
  ("subplots", "matplotlib.pyplot.subplots"),
  ("rec_drop_fields", "matplotlib.mlab.rec_drop_fields"),
  ("base_repr", "matplotlib.mlab.base_repr"),
  ("barbs", "matplotlib.pyplot.barbs"),
  ("demean", "matplotlib.mlab.demean"),
  ("rcParams", "matplotlib.rcParams"),
  ("title", "matplotlib.pyplot.title"),
  ("_imread", "matplotlib.image.imread"),
  ("FixedLocator", "ticker.FixedLocator"),
  ("FuncFormatter", "ticker.FuncFormatter"),
  ("hsv", "matplotlib.pyplot.hsv")]

end PlotAdvisor.Elements
